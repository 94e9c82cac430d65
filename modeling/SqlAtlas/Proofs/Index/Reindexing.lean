import SqlAtlas.Definition
import SqlAtlas.Proofs.Index.Answers
import SqlAtlas.Proofs.Index.Locality

/-!
# Reindexing forgets what was before

Indexes that have the same of all files answer every question alike, in the same order, since all
answers are sorted and files break no tie. So a file that is replaced leaves no trace of what it
went through before, and a file that is removed leaves no trace at all.
-/

namespace SqlAtlas

set_option autoImplicit false

open Text

theorem uri_of_mem_definitions {uri : String} {text : List Char} {s : SymbolDef}
    (h : s ∈ definitions uri text) : s.uri = uri := by
  obtain ⟨header, _, hs⟩ := List.mem_filterMap.mp h
  rw [Definition.symbol?] at hs
  split at hs
  · cases hs
  · obtain ⟨contents, _, hs⟩ := Option.bind_eq_some_iff.mp hs
    cases hs
    rfl

namespace SymbolIndex

/-- Two indexes give the same answers, but for numbers of generations. -/
structure SameAnswers (x y : SymbolIndex) : Prop where
  references : ∀ name, x.getReferences name = y.getReferences name
  referencesByFile : ∀ name uri, x.getReferencesInFile name uri = y.getReferencesInFile name uri
  referencesOfFile : ∀ uri, x.referencesInFile uri = y.referencesInFile uri
  columnLocations : ∀ table column, x.columnLocations table column = y.columnLocations table column
  anyLocations : ∀ word, x.anyLocations word = y.anyLocations word
  definitions : ∀ name, x.findDefinitions name = y.findDefinitions name
  symbols : ∀ uri, x.symbolsInFile uri = y.symbolsInFile uri
  columns : ∀ table, x.columnsForTable table = y.columnsForTable table
  tables : ∀ column, x.tablesWithColumn column = y.tablesWithColumn column
  aliases : ∀ uri, x.aliasesForFile? uri = y.aliasesForFile? uri
  indexed : ∀ uri, (x.generation? uri).isSome = (y.generation? uri).isSome
  files : x.files = y.files
  stats : x.stats = y.stats

/-- Names without references make no difference, so that the names that corrections left behind do
not show. -/
theorem Consistent.referencesInFile_congr {x y : SymbolIndex} (hx : Consistent x)
    (hy : Consistent y) {uri : String}
    (h : ∀ name, x.referencesTo uri name = y.referencesTo uri name) :
    x.referencesInFile uri = y.referencesInFile uri := by
  have hlisted : ∀ {z : SymbolIndex}, Consistent z → ∀ name,
      name ∈ (namesAt z.namesByFile uri).filter (fun n => !(z.referencesTo uri n).isEmpty) ↔
        z.referencesTo uri name ≠ [] := by
    intro z hz name
    rw [List.mem_filter, Bool.not_eq_true', List.isEmpty_eq_false_iff]
    exact ⟨fun hmem => hmem.2, fun hne => ⟨hz.references.listed hne, hne⟩⟩
  have hnames : (namesAt x.namesByFile uri).filter (fun n => !(x.referencesTo uri n).isEmpty) =
      (namesAt y.namesByFile uri).filter (fun n => !(y.referencesTo uri n).isEmpty) := by
    apply NameSet.Ascending.ext ((hx.references.ascending uri).filter _)
      ((hy.references.ascending uri).filter _)
    intro name
    rw [hlisted hx, hlisted hy, h]
  have hfound : ∀ z : SymbolIndex, (namesAt z.namesByFile uri).flatMap (z.referencesTo uri) =
      ((namesAt z.namesByFile uri).filter fun n => !(z.referencesTo uri n).isEmpty).flatMap
        (z.referencesTo uri) := by
    intro z
    refine (Arrangement.flatMap_filter_support _ _ _ fun name _ hempty => ?_).symm
    simpa using hempty
  change ((namesAt x.namesByFile uri).flatMap (x.referencesTo uri)).mergeSort _ =
    ((namesAt y.namesByFile uri).flatMap (y.referencesTo uri)).mergeSort _
  rw [hfound x, hfound y, hnames, funext h]

section

variable {x y : SymbolIndex} (h : Alike x y)

include h

theorem Alike.files : x.files = y.files := by
  apply Arrangement.eq_of_ascending (fun a b => lt_asymm) (files_ascending x) (files_ascending y)
  intro uri
  have hindexed := h.indexed uri
  rw [generation?, generation?] at hindexed
  rw [mem_files_iff, mem_files_iff, Dict.mem_keys_iff, Dict.mem_keys_iff, hindexed]

theorem Alike.columns? (table : Name) : x.columns.columns? table = y.columns.columns? table := by
  rw [ColumnRegistry.columns?_eq, ColumnRegistry.columns?_eq, h.contributions]

theorem Alike.tablesWithColumn (column : Name) :
    x.tablesWithColumn column = y.tablesWithColumn column := by
  apply NameSet.Ascending.ext (ColumnRegistry.ascending_tablesWith x.columns column)
    (ColumnRegistry.ascending_tablesWith y.columns column)
  intro table
  rw [ColumnRegistry.mem_tablesWith, ColumnRegistry.mem_tablesWith, h.columns?]

variable (hx : Consistent x) (hy : Consistent y)

include hx hy

theorem Alike.symbolsNamed (name : Name) : x.symbolsNamed name = y.symbolsNamed name := by
  have hdefiners : definersAt x.filesByName name = definersAt y.filesByName name := by
    apply Arrangement.eq_of_ascending (fun a b => lt_asymm) (hx.definitions.ascending name)
      (hy.definitions.ascending name)
    intro uri
    rw [hx.definitions.mem_iff, hy.definitions.mem_iff, symbolsAt, symbolsAt, h.symbols]
  change (definersAt x.filesByName name).flatMap _ = (definersAt y.filesByName name).flatMap _
  simp only [hdefiners, h.symbols]

theorem Alike.symbols_perm : x.symbols.Perm y.symbols := by
  have hfile : x.symbolsInFile = y.symbolsInFile := by
    funext uri
    rw [symbolsInFile, symbolsInFile, h.symbols]
  have hperm := hx.symbols_perm
  rw [h.files, hfile] at hperm
  exact hperm.trans hy.symbols_perm.symm

/-- The references to a name stand by file, and those of each file in the order of the file. -/
theorem Alike.getReferences (name : Name) : x.getReferences name = y.getReferences name := by
  have hsorted : ∀ z : SymbolIndex, (z.getReferences name).Pairwise fun a b => a.uri ≤ b.uri := by
    intro z
    have hlocations : (z.getReferences name).Pairwise fun a b =>
        a.location.upTo b.location = true :=
      List.pairwise_mergeSort
        (fun a b c => Location.upTo_trans a.location b.location c.location)
        (fun a b => Location.upTo_total a.location b.location) _
    refine hlocations.imp fun {a b} hab => ?_
    rcases (Location.upTo_iff a.location b.location).mp hab with hlt | ⟨heq, _⟩
    · exact le_of_lt hlt
    · exact le_of_eq heq
  apply Arrangement.eq_of_filter_key (fun r : Reference => r.uri) (hsorted x) (hsorted y)
  intro uri
  rw [hx.getReferences_filter_uri, hy.getReferences_filter_uri, getReferencesInFile,
    getReferencesInFile, h.references]

theorem Alike.referencesInFile (uri : String) : x.referencesInFile uri = y.referencesInFile uri :=
  hx.referencesInFile_congr hy (h.references uri)

theorem Alike.anyLocations (word : Name) : x.anyLocations word = y.anyLocations word := by
  have hperm := h.symbols_perm hx hy
  rw [SymbolIndex.anyLocations, SymbolIndex.anyLocations]
  split
  · rfl
  · have hobjects := sortLocations_eq_of_perm
      ((hperm.filter fun s => s.name == word || s.name.unqualified == word.chars).map
        SymbolDef.location)
    have hcolumns := sortLocations_eq_of_perm
      (hperm.flatMap_right fun s => (s.columns.filter (·.name = word)).map s.columnLocation)
    simp only [hobjects, hcolumns]

variable (htidy : x.columns.Tidy) (htidy' : y.columns.Tidy)

include htidy htidy'

theorem Alike.stats : x.stats = y.stats := by
  have hfile : x.referencesInFile = y.referencesInFile := funext (h.referencesInFile hx hy)
  have hreferences : x.stats.references = y.stats.references := by
    rw [hx.stats_references, hy.stats_references, h.files, hfile]
  have hsymbols : x.stats.symbols = y.stats.symbols := (h.symbols_perm hx hy).length_eq
  have hfiles : x.stats.files = y.stats.files := by
    rw [hx.stats_files, hy.stats_files, h.files]
  have hnames : x.stats.referenceNames = y.stats.referenceNames := by
    rw [hx.stats_referenceNames, hy.stats_referenceNames, h.files, hfile]
  have htables : x.stats.tablesWithColumns = y.stats.tablesWithColumns := by
    have hkeys : x.columns.tables.keys.Perm y.columns.tables.keys := by
      rw [List.perm_ext_iff_of_nodup htidy.distinct htidy'.distinct]
      intro table
      rw [htidy.mem_keys_iff, htidy'.mem_keys_iff, h.contributions]
    have hlength := hkeys.length_eq
    rwa [Dict.keys, Dict.keys, List.length_map, List.length_map] at hlength
  cases hsx : x.stats
  cases hsy : y.stats
  simp only [hsx, hsy] at hreferences hsymbols hfiles hnames htables
  rw [hreferences, hsymbols, hfiles, hnames, htables]

theorem Alike.sameAnswers : SameAnswers x y where
  references := h.getReferences hx hy
  referencesByFile name uri := by rw [getReferencesInFile, getReferencesInFile, h.references]
  referencesOfFile := h.referencesInFile hx hy
  columnLocations table column := by
    rw [columnLocations, columnLocations, h.symbolsNamed hx hy]
  anyLocations := h.anyLocations hx hy
  definitions name := by rw [findDefinitions, findDefinitions, h.symbolsNamed hx hy]
  symbols uri := by rw [symbolsInFile, symbolsInFile, h.symbols]
  columns table := by rw [columnsForTable, columnsForTable, h.columns?]
  tables := h.tablesWithColumn
  aliases := h.aliases
  indexed := h.indexed
  files := h.files
  stats := h.stats hx hy htidy htidy'

end

/-! ### Removed files -/

structure Forgets (x : SymbolIndex) (uri : String) : Prop where
  references : ∀ name, ∀ r ∈ x.getReferences name, r.uri ≠ uri
  referencesByFile : ∀ name v, ∀ r ∈ x.getReferencesInFile name v, r.uri ≠ uri
  referencesOfFile : ∀ v, ∀ r ∈ x.referencesInFile v, r.uri ≠ uri
  columnLocations : ∀ table column, ∀ l ∈ x.columnLocations table column, l.uri ≠ uri
  anyLocations : ∀ word, ∀ l ∈ x.anyLocations word, l.uri ≠ uri
  definitions : ∀ name, ∀ s ∈ x.findDefinitions name, s.uri ≠ uri
  symbols : ∀ v, ∀ s ∈ x.symbolsInFile v, s.uri ≠ uri
  ownReferences : x.referencesInFile uri = []
  ownSymbols : x.symbolsInFile uri = []
  aliases : x.aliasesForFile? uri = none
  generation : x.generation? uri = none
  files : uri ∉ x.files

/-- Definitions carry the file that they stand in. -/
def Signed (x : SymbolIndex) : Prop := ∀ uri, ∀ s ∈ x.symbolsInFile uri, s.uri = uri

theorem mem_of_mem_dropRepeats {l : Location} {ls : List Location} (h : l ∈ dropRepeats ls) :
    l ∈ ls := by
  fun_induction dropRepeats ls with
  | case1 a rest ih => exact List.mem_cons_of_mem a (ih h)
  | case2 a b rest hne ih =>
    rcases List.mem_cons.mp h with rfl | h
    · exact List.mem_cons_self
    · exact List.mem_cons_of_mem a (ih h)
  | case3 ls hshort => exact h

theorem Consistent.forgets {x : SymbolIndex} {uri : String} (h : Consistent x) (hsigned : Signed x)
    (hgone : uri ∉ x.files) (haliases : x.aliasesForFile? uri = none) : Forgets x uri := by
  have hreferences : ∀ {v name} {r : Reference}, r ∈ x.referencesTo v name → r.uri ≠ uri := by
    rintro v name r hr rfl
    rw [(h.references.stored hr).2] at hgone
    exact hgone (h.mem_files_of_referencesTo name (List.ne_nil_of_mem hr))
  have hsymbols : ∀ {v} {s : SymbolDef}, s ∈ x.symbolsInFile v → s.uri ≠ uri := by
    rintro v s hs rfl
    rw [hsigned v s hs] at hgone
    exact hgone (h.mem_files_of_symbols (List.ne_nil_of_mem hs))
  have hall : ∀ {s : SymbolDef}, s ∈ x.symbols → s.uri ≠ uri := by
    intro s hs
    obtain ⟨v, _, hs⟩ := List.mem_flatMap.mp (h.symbols_perm.mem_iff.mp hs)
    exact hsymbols hs
  have hnamed : ∀ {name} {s : SymbolDef}, s ∈ x.symbolsNamed name → s.uri ≠ uri := by
    intro name s hs
    obtain ⟨v, _, hs⟩ := List.mem_flatMap.mp hs
    exact hsymbols (List.mem_of_mem_filter hs)
  have hfile : ∀ v, ∀ r ∈ x.referencesInFile v, r.uri ≠ uri :=
    fun v r hr => hreferences (h.mem_referencesInFile.mp hr)
  refine ⟨?_, ?_, hfile, ?_, ?_, ?_, fun v s => hsymbols, ?_, ?_, haliases, ?_, hgone⟩
  · intro name r hr
    obtain ⟨v, _, hr⟩ := List.mem_flatMap.mp ((h.getReferences_perm name).mem_iff.mp hr)
    exact hreferences hr
  · intro name v r hr
    exact hreferences (List.mem_mergeSort.mp hr)
  · intro table column l hl
    obtain ⟨s, hs, hl⟩ := List.mem_filterMap.mp (List.mem_mergeSort.mp hl)
    obtain ⟨c, _, rfl⟩ := Option.map_eq_some_iff.mp hl
    exact hnamed hs
  · intro word l hl
    rw [SymbolIndex.anyLocations] at hl
    split at hl
    · cases hl
    · rcases List.mem_append.mp (mem_of_mem_dropRepeats hl) with hl | hl
      · obtain ⟨s, hs, rfl⟩ := List.mem_map.mp (List.mem_mergeSort.mp hl)
        exact hall (List.mem_of_mem_filter hs)
      · obtain ⟨s, hs, hl⟩ := List.mem_flatMap.mp (List.mem_mergeSort.mp hl)
        obtain ⟨c, _, rfl⟩ := List.mem_map.mp hl
        exact hall hs
  · intro name s hs
    exact hnamed (List.mem_mergeSort.mp hs)
  · -- a reference of the file would carry the file
    apply List.eq_nil_iff_forall_not_mem.mpr
    intro r hr
    exact hfile uri r hr (h.references.stored (h.mem_referencesInFile.mp hr)).2
  · apply List.eq_nil_iff_forall_not_mem.mpr
    intro s hs
    exact hsymbols hs (hsigned uri s hs)
  · rw [mem_files_iff] at hgone
    exact (Dict.get?_eq_none_iff x.generations uri).mpr hgone

end SymbolIndex

namespace IndexOperation

open SymbolIndex

def Signed : IndexOperation → Prop
  | define uri symbols => ∀ s ∈ symbols, s.uri = uri
  | replace uri _ symbols _ _ => ∀ s ∈ symbols, s.uri = uri
  | remove _ => True
  | correct .. => True

theorem signed_publish {x y : SymbolIndex} (h : x.Signed) {uri : String} {symbols : List SymbolDef}
    (hsymbols : ∀ s ∈ symbols, s.uri = uri)
    (hy : y.symbolsByFile = (x.symbolsByFile.erase uri).insert uri symbols) : y.Signed := by
  intro v s hs
  rw [symbolsInFile, hy, Dict.get?_insert_erase] at hs
  by_cases hv : uri = v
  · rw [if_pos hv] at hs
    exact (hsymbols s hs).trans hv
  · rw [if_neg hv] at hs
    exact h v s hs

theorem signed_apply {x : SymbolIndex} (h : x.Signed) {op : IndexOperation} (hop : op.Signed) :
    (op.apply x).Signed := by
  cases op with
  | define uri symbols => exact signed_publish h hop rfl
  | replace uri text symbols scopes limit => exact signed_publish h hop rfl
  | remove uri =>
    intro v s hs
    change s ∈ ((x.symbolsByFile.erase uri).get? v).getD [] at hs
    rw [Dict.get?_erase] at hs
    split at hs
    · cases hs
    · exact h v s hs
  | correct uri generation place column keep provisional =>
    rw [apply, applyCorrection_references]
    exact h

theorem signed_run {x : SymbolIndex} (h : x.Signed) {ops : List IndexOperation}
    (hops : ∀ op ∈ ops, op.Signed) : (run x ops).Signed := by
  induction ops generalizing x with
  | nil => exact h
  | cons op ops ih =>
    exact ih (signed_apply h (hops op List.mem_cons_self))
      fun op hop => hops op (List.mem_cons_of_mem _ hop)

theorem tidy_run {x : SymbolIndex} (h : x.columns.Tidy) (ops : List IndexOperation) :
    (run x ops).columns.Tidy :=
  run_induction (P := fun y => y.columns.Tidy) (fun _ op h => tidy_apply h op) x ops h

/-- Whatever operations a file has gone through, replacing it finds the same references and leads to
an index with the same answers as replacing it at once. An operation on a file changes nothing of
another file. A removed file is in no answer any more, if definitions carry their file. -/
theorem reindexing_forgets_history (before : List IndexOperation) (uri : String) :
    let x := run {} before
    (∀ history : List IndexOperation, (∀ op ∈ history, op.uri = uri) →
      ∀ (text : List Char) (symbols : List SymbolDef) (scopes : FileScopes) (limit : Nat),
        ((run x history).replaceFile uri text symbols scopes limit).1.extracted =
            (x.replaceFile uri text symbols scopes limit).1.extracted ∧
          SameAnswers ((run x history).replaceFile uri text symbols scopes limit).2
            (x.replaceFile uri text symbols scopes limit).2) ∧
    (∀ op : IndexOperation, op.uri = uri → ∀ v, v ≠ uri →
      (op.apply x).symbolsInFile v = x.symbolsInFile v ∧
        (op.apply x).referencesInFile v = x.referencesInFile v ∧
        (∀ name, (op.apply x).getReferencesInFile name v = x.getReferencesInFile name v) ∧
        (op.apply x).aliasesForFile? v = x.aliasesForFile? v ∧
        (op.apply x).generation? v = x.generation? v) ∧
    ((∀ op ∈ before, op.Signed) → Forgets (x.removeFile uri) uri) := by
  intro x
  have h : Consistent x := consistent_run before
  have htidy : x.columns.Tidy := tidy_run ColumnRegistry.tidy_empty before
  refine ⟨?_, ?_, ?_⟩
  · intro history hhistory text symbols scopes limit
    have hlate : Consistent (run x history) := run_induction (fun _ op h => h.apply op) x history h
    have htidyLate : (run x history).columns.Tidy := tidy_run htidy history
    have hsame := h.sameElsewhere_run htidy hhistory
    refine ⟨hsame.extracted_replaceFile htidyLate htidy text symbols scopes limit, ?_⟩
    exact (hsame.alike_replaceFile hlate h htidyLate htidy text symbols scopes limit).sameAnswers
      (hlate.replace uri text symbols scopes limit) (h.replace uri text symbols scopes limit)
      (tidy_apply htidyLate (.replace uri text symbols scopes limit))
      (tidy_apply htidy (.replace uri text symbols scopes limit))
  · rintro op rfl v hv
    have hsame := h.sameElsewhere_apply htidy op
    refine ⟨?_, (h.apply op).referencesInFile_congr h (hsame.references hv), ?_, hsame.aliases hv,
      hsame.generations hv⟩
    · rw [symbolsInFile, symbolsInFile, hsame.symbols hv]
    · intro name
      rw [getReferencesInFile, getReferencesInFile, hsame.references hv]
  · intro hsigned
    have hstart : ({} : SymbolIndex).Signed := fun v s hs => by cases hs
    have hremoved : (apply x (.remove uri)).Signed :=
      signed_apply (signed_run hstart hsigned) trivial
    apply (h.remove uri).forgets hremoved
    · rw [mem_files_iff]
      exact fun hmem => (Dict.mem_keys_erase.mp hmem).1 rfl
    · change (x.aliasesByFile.erase uri).get? uri = none
      rw [Dict.get?_erase, if_pos rfl]

def ofText (uri : String) (text : List Char) (limit : Nat) : IndexOperation :=
  replace uri text (definitions uri text) (.ofText text) limit

theorem signed_ofText (uri : String) (text : List Char) (limit : Nat) : (ofText uri text limit).Signed :=
  fun _ => uri_of_mem_definitions

/-- A query that was closed and came back is as if it had only been edited; a query that is removed
is gone, and its table stays. -/
theorem reindexing_forgets_query :
    let text := "SELECT A FROM T".toList
    let x := run {} [ofText "t.sql" "CREATE TABLE T (A INT)".toList 10, ofText "q.sql" text 10]
    let history := [define "q.sql" [], remove "q.sql"]
    ((x.referencesTo "q.sql" (.ofText "t.a")).length = 1 ∧ ∀ op ∈ history, op.uri = "q.sql") ∧
      SameAnswers ((run x history).replaceFile "q.sql" text [] (.ofText text) 10).2
        (x.replaceFile "q.sql" text [] (.ofText text) 10).2 ∧
      (x.removeFile "q.sql").symbolsInFile "t.sql" = x.symbolsInFile "t.sql" ∧
      Forgets (x.removeFile "q.sql") "q.sql" := by
  intro text x history
  have hown : ∀ op ∈ history, op.uri = "q.sql" := by simp [history, IndexOperation.uri]
  have h := reindexing_forgets_history
    [ofText "t.sql" "CREATE TABLE T (A INT)".toList 10, ofText "q.sql" text 10] "q.sql"
  refine ⟨⟨by decide +kernel, hown⟩, (h.1 history hown text [] (.ofText text) 10).2,
    (h.2.1 (.remove "q.sql") rfl "t.sql" (by decide)).1, h.2.2 ?_⟩
  intro op hop
  rcases List.mem_cons.mp hop with rfl | hop
  · exact signed_ofText _ _ _
  · rw [List.mem_singleton.mp hop]
    exact signed_ofText _ _ _

end IndexOperation

end SqlAtlas
