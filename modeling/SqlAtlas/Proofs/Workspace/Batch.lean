import Mathlib.Data.List.Induction
import SqlAtlas.Proofs.Workspace.Turn

/-!
# References after a batch

Every file is indexed with the columns that are known at its turn. These are the columns at the end
unless a later turn moves columns, and then the references of the file stay behind.
-/

namespace SqlAtlas

set_option autoImplicit false

open Workspace SymbolIndex

namespace Workspace

theorem settings_publishDefinitions (kept : List (String × List Char)) (w : Workspace) :
    (kept.foldl publishDefinitions w).settings = w.settings := by
  induction kept generalizing w with
  | nil => rfl
  | cons file kept ih => exact ih (w.publishDefinitions file)

/-- Publishing the definitions of some files puts them behind all others and leaves the others. -/
theorem underway_publishDefinitions {w : Workspace} {files : List (String × List SymbolDef)}
    {kept : List (String × List Char)} (hw : Standing w.index files)
    (hdistinct : (kept.map (·.1)).Nodup) : Underway kept (kept.foldl publishDefinitions w).index ∧
      ∀ uri, uri ∉ kept.map (·.1) → SameAt uri (kept.foldl publishDefinitions w).index w.index := by
  suffices h : (∃ front, Standing (kept.foldl publishDefinitions w).index
      (front ++ kept.map defined)) ∧
      ∀ uri, uri ∉ kept.map (·.1) → SameAt uri (kept.foldl publishDefinitions w).index w.index by
    obtain ⟨⟨front, hx⟩, helsewhere⟩ := h
    exact ⟨⟨front, _, hx, .refl _⟩, helsewhere⟩
  -- the files are published from the left, so the induction takes them off the right end
  induction kept using List.reverseRecOn with
  | nil => exact ⟨⟨files, by simpa using hw⟩, fun uri _ => .refl uri _⟩
  | append_singleton rest file ih =>
    rw [List.map_append, List.map_singleton, List.nodup_append] at hdistinct
    obtain ⟨hrest, _, hnew⟩ := hdistinct
    obtain ⟨⟨front, hx⟩, helsewhere⟩ := ih hrest
    rw [List.foldl_append]
    constructor
    · refine ⟨front.filter fun f => decide (f.1 ≠ file.1), ?_⟩
      have hnext := hx.define file.1 (definitions file.1 file.2)
      have hkeep : (rest.map defined).filter (fun f => decide (f.1 ≠ file.1)) = rest.map defined := by
        apply List.filter_eq_self.mpr
        intro f hf
        obtain ⟨other, hother, rfl⟩ := List.mem_map.mp hf
        exact decide_eq_true (hnew other.1 (List.mem_map_of_mem hother) file.1
          (List.mem_singleton_self _))
      rw [List.filter_append, hkeep, List.append_assoc] at hnext
      rw [List.map_append]
      exact hnext
    · intro uri huri
      rw [List.map_append, List.mem_append, not_or] at huri
      exact ((hx.consistent.sameElsewhere_define hx.holds.tidy file.1 _).sameAt
        (by simpa using huri.2)).trans (helsewhere uri huri.1)

theorem indexFiles_split {w w' : Workspace} {before after : List (String × List Char)}
    {file : String × List Char} {outcomes : List IndexOutcome}
    (h : w.indexFiles (before ++ file :: after) = .ok (outcomes, w')) :
    ∃ first w₁ outcome w₂ last, w.indexFiles before = .ok (first, w₁) ∧
      w₁.indexFile file.1 file.2 = .ok (outcome, w₂) ∧ w₂.indexFiles after = .ok (last, w') ∧
      outcomes = first ++ outcome :: last := by
  induction before generalizing w outcomes with
  | nil =>
    rw [List.nil_append, indexFiles] at h
    split at h
    · cases h
    · rename_i outcome w₂ hfile
      split at h
      · cases h
      · rename_i last _ hrest
        cases h
        exact ⟨[], w, outcome, w₂, last, rfl, hfile, hrest, rfl⟩
  | cons other before ih =>
    rw [List.cons_append, indexFiles] at h
    split at h
    · cases h
    · rename_i result next hother
      split at h
      · cases h
      · rename_i others _ hrest
        cases h
        obtain ⟨first, w₁, outcome, w₂, last, hbefore, hfile, hafter, rfl⟩ := ih hrest
        refine ⟨result :: first, w₁, outcome, w₂, last, ?_, hfile, hafter, rfl⟩
        rw [indexFiles, hother]
        simp only [hbefore]

/-- A file after whose turn no other turn moves columns is indexed with the columns at the end. -/
theorem upToDate_indexFiles {files kept before after : List (String × List Char)}
    {file : String × List Char} {w w' : Workspace} {outcomes : List IndexOutcome}
    (hdistinct : (files.map (·.1)).Nodup) (hw : Underway kept w.index)
    (hkept : ∀ file, file ∈ kept ↔ file ∈ files ∧ w.Takes file)
    (hfiles : files = before ++ file :: after) (hquiet : ∀ later ∈ after, w.Quiet files later)
    (h : w.indexFiles files = .ok (outcomes, w')) :
    ∃ outcome, outcomes[before.length]? = some outcome ∧
      outcome.unnumbered = w.verdict w'.index.columns.hasColumn file ∧
      ((w.Takes file ∧ UpToDate w.settings.maxReferences file w'.index) ∨
        ¬ w.Takes file ∧ (∃ reason, outcome = .skipped reason) ∧
          w'.index.generation? file.1 = none) := by
  have hapart : ∀ later ∈ after, later.1 ∉ (before ++ [file]).map (·.1) := by
    intro later hlater
    rw [hfiles, List.append_cons, List.map_append, List.nodup_append] at hdistinct
    exact fun hmem => hdistinct.2.2 later.1 hmem later.1 (List.mem_map_of_mem hlater) rfl
  have hnew : file.1 ∉ before.map (·.1) ∧ file.1 ∉ after.map (·.1) := by
    rw [hfiles, List.map_append, List.map_cons, List.nodup_middle, List.nodup_cons,
      List.mem_append, not_or] at hdistinct
    exact hdistinct.1
  have hmem : file ∈ files := by simp [hfiles]
  have hbeforeSub : before.Sublist files := hfiles ▸ List.sublist_append_left before (file :: after)
  have hafterSub : after.Sublist files := by
    rw [hfiles, List.append_cons]
    exact List.sublist_append_right (before ++ [file]) after
  rw [hfiles] at h
  obtain ⟨first, w₁, outcome, w₂, last, hbefore, hfile, hafter, rfl⟩ := indexFiles_split h
  obtain ⟨hpassed₁, hlength⟩ := passed_indexFiles hdistinct hw hkept hbeforeSub hbefore
  have hpassed₂ : Passed files kept [file] w₁ w₂ :=
    passed_indexFile hdistinct hpassed₁.underway
      (fun file => by rw [hkept, takes_congr hpassed₁.filter]) hmem hfile
  have hthrough : Passed files kept (before ++ [file]) w w₂ :=
    hpassed₁.trans hpassed₂ fun f hf => by rw [List.mem_singleton.mp hf]; exact hnew.1
  obtain ⟨hpassed₃, -⟩ := passed_indexFiles hdistinct hthrough.underway
    (fun file => by rw [hkept, takes_congr hthrough.filter]) hafterSub hafter
  have hcolumns : ∀ table, w'.index.columns.contributions table =
      w₂.index.columns.contributions table := by
    refine hpassed₃.columns fun later hlater => ?_
    refine (hquiet later hlater).congr hthrough.filter fun _ => ?_
    rw [symbolsInFile, symbolsInFile, (hthrough.elsewhere later.1 (hapart later hlater)).symbols]
  have hlast := hpassed₃.elsewhere file.1 hnew.2
  obtain ⟨hsettings, hverdict, hcases⟩ := indexFile_cases hfile
  refine ⟨outcome, ?_, ?_, ?_⟩
  · simp [← hlength]
  · rw [hverdict, verdict_congr hpassed₁.filter hpassed₁.settings, hasColumn_congr hcolumns]
  · rcases hcases with ⟨hskipped, hreason, hindex⟩ | ⟨htakes, hindex⟩
    · right
      refine ⟨fun htakes => hskipped ((takes_congr hpassed₁.filter file).mpr htakes), hreason, ?_⟩
      rw [hlast.generation, hindex]
      split
      · rw [generation?_removeFile, if_pos rfl]
      · rename_i hnone
        simpa using hnone
    · left
      obtain ⟨front, back, hx, _⟩ := hpassed₁.underway
      refine ⟨(takes_congr hpassed₁.filter file).mp htakes, UpToDate.of_same ?_ hlast hcolumns⟩
      rw [hindex, ← hpassed₁.settings]
      exact upToDate_replaceFile hx.consistent _ file

/-- A batch begins by putting the definitions of its files behind those of all others. -/
theorem indexBatch_starts {files : List (String × List Char)} {known : List (String × List SymbolDef)}
    {w w' : Workspace} {outcomes : List IndexOutcome} (hw : Standing w.index known)
    (hdistinct : (files.map (·.1)).Nodup) (h : w.indexBatch files = .ok (outcomes, w')) :
    ∃ (kept : List (String × List Char)) (w₀ : Workspace), (∀ file, file ∈ kept ↔ file ∈ files ∧ w₀.Takes file) ∧ Underway kept w₀.index ∧
      w₀.filter = w.filter ∧ w₀.settings = w.settings ∧
      (∀ uri, uri ∉ kept.map (·.1) → SameAt uri w₀.index w.index) ∧
      (∀ file, w.Quiet files file → file ∈ files → w₀.Quiet files file) ∧
      w₀.indexFiles files = .ok (outcomes, w') := by
  rw [indexBatch] at h
  cases hkept : w.eligible files with
  | error fault => rw [hkept] at h; cases h
  | ok kept =>
    rw [hkept] at h
    obtain ⟨hunderway, helsewhere⟩ := underway_publishDefinitions hw
      (hdistinct.sublist ((eligible_sublist hkept).map (·.1)))
    have hfilter := Execution.filter_publishDefinitions kept w
    refine ⟨kept, _, ?_, hunderway, hfilter, settings_publishDefinitions kept w, helsewhere, ?_, h⟩
    · intro file
      rw [mem_eligible_iff hkept, takes_congr hfilter]
    · intro file hquiet hfile
      refine hquiet.congr hfilter fun hskipped => ?_
      rw [symbolsInFile, symbolsInFile, (helsewhere file.1 ?_).symbols]
      intro hmem
      obtain ⟨other, hother, hsame⟩ := List.mem_map.mp hmem
      obtain ⟨hother, htakes⟩ := (mem_eligible_iff hkept).mp hother
      rw [List.inj_on_of_nodup_map hdistinct hother hfile hsame] at htakes
      exact hskipped htakes

end Workspace

/-- Every execution keeps an index of exactly some files. -/
theorem Execution.Reachable.standing {answers : Execution.Answers} {settings : Settings}
    {w : Workspace} (hw : ofSettings settings = .ok w) {callers : List (List Operation)}
    {e : Execution} (he : Execution.Reachable answers (Execution.ofCallers w callers) e) :
    ∃ files, Standing e.workspace.index files := by
  apply he.record_induction (P := fun r => ∃ files, Standing r.index files)
    (Execution.sincere_ofCallers answers hw callers)
  · rw [(Execution.record_ofCallers hw callers).2.2]
    exact ⟨[], standing_empty⟩
  · rintro r r' hchange ⟨files, h⟩
    cases hchange with
    | arrange _ => exact ⟨files, h⟩
    | define _ uri symbols => exact ⟨_, h.define uri symbols⟩
    | remove _ uri => exact ⟨_, h.remove uri⟩
    | replace uri text symbols limit hpublished _ =>
      have hnext := h.replace uri text symbols (.ofText text) limit
      rw [hpublished] at hnext
      exact ⟨_, hnext⟩
    | expire _ _ => exact ⟨files, h⟩
    | leave _ _ _ => exact ⟨files, h⟩
    | apply _ _ _ _ => exact ⟨files, h.retractAll _ _ _⟩

namespace Workspace

/-- When a batch is done, a file that was indexed has the references that are found with the columns
of that moment, as long as no later turn of the batch moves columns. -/
theorem references_of_final_columns {answers : Execution.Answers} {settings : Settings}
    {start w' : Workspace} (hstart : ofSettings settings = .ok start)
    {callers : List (List Operation)} {e : Execution}
    (he : Execution.Reachable answers (Execution.ofCallers start callers) e)
    {files before after : List (String × List Char)} {file : String × List Char}
    {outcomes : List IndexOutcome} {found : IndexedFile} (hdistinct : (files.map (·.1)).Nodup)
    (h : e.workspace.indexBatch files = .ok (outcomes, w')) (hfiles : files = before ++ file :: after)
    (hquiet : ∀ later ∈ after, e.workspace.Quiet files later)
    (hfound : outcomes[before.length]? = some (.indexed found)) :
    (w'.index.referencesInFile file.1).Perm (extractReferences file.1 file.2 (.ofText file.2)
      w'.index.columns.hasColumn e.workspace.settings.maxReferences).references := by
  obtain ⟨known, hknown⟩ := he.standing hstart
  obtain ⟨kept, w₀, hkept, hunderway, -, hsettings, -, hquiets, hindexed⟩ :=
    indexBatch_starts hknown hdistinct h
  have hafter : ∀ later ∈ after, later ∈ files := by
    intro later hlater
    rw [hfiles]
    exact List.mem_append_right _ (List.mem_cons_of_mem _ hlater)
  obtain ⟨outcome, houtcome, -, hcases⟩ := upToDate_indexFiles hdistinct hunderway hkept hfiles
    (fun later hlater => hquiets later (hquiet later hlater) (hafter later hlater)) hindexed
  rw [houtcome] at hfound
  obtain ⟨-, hupToDate⟩ | ⟨-, ⟨reason, rfl⟩, -⟩ := hcases
  · obtain ⟨⟨front, back, hx, _⟩, -⟩ := (passed_indexFiles hdistinct hunderway hkept (.refl files) hindexed).1
    rw [hsettings] at hupToDate
    exact hx.consistent.referencesInFile_perm hupToDate.references
  · cases hfound

def unparsed : Settings := { parse := { poolSize := 0 } }

/-- A table gets another column in the batch that brings a query of it. -/
theorem references_of_final_columns_query :
    let start : Workspace := { settings := unparsed, globs := [] }
    let e := (Execution.ofCallers start
      [[.indexFile "u.sql" "CREATE TABLE U (X INT)".toList]]).run [.call 0]
    let query := "SELECT X, Y FROM U".toList
    let table := ("u.sql", "CREATE TABLE U (Y INT)".toList)
    let files := [("q.sql", query), table, ("u.txt", [])]
    (e.workspace.index.columnsForTable (.ofText "u") = [.ofText "x"] ∧
      ∀ later ∈ [table, ("u.txt", [])], e.workspace.Quiet files later) ∧
    ∃ outcomes w' found, e.workspace.indexBatch files = .ok (outcomes, w') ∧
      outcomes[0]? = some (.indexed found) ∧ found.references = 2 ∧
      (w'.index.referencesInFile "q.sql").Perm (extractReferences "q.sql" query (.ofText query)
        w'.index.columns.hasColumn e.workspace.settings.maxReferences).references := by
  intro start e query table files
  have hquiet : e.workspace.index.columnsForTable (.ofText "u") = [.ofText "x"] ∧
      ∀ later ∈ [table, ("u.txt", [])], e.workspace.Quiet files later := by decide +kernel
  have hrun : (e.workspace.indexBatch files).toOption.map (fun r => r.1[0]?) =
      some (some (.indexed ⟨4, 0, 2, 0, false⟩)) := by decide +kernel
  cases h : e.workspace.indexBatch files with
  | error fault => rw [h] at hrun; cases hrun
  | ok result =>
    rw [h] at hrun
    obtain ⟨outcomes, w'⟩ := result
    have hfound : outcomes[0]? = some (.indexed ⟨4, 0, 2, 0, false⟩) := Option.some.inj hrun
    have hreach : Execution.Reachable (fun _ _ _ => True) _ e :=
      Execution.reachable_run _ (by simp [Execution.Move.Faithful])
    have hstart : ofSettings unparsed = .ok start := rfl
    have hfiles : files = [] ++ ("q.sql", query) :: [table, ("u.txt", [])] := rfl
    exact ⟨hquiet, outcomes, w', _, rfl, hfound, rfl,
      references_of_final_columns hstart hreach (by decide) h hfiles hquiet.2 hfound⟩

/-- Two files of a batch define one table. The first is indexed with its own columns, and then those
of the second count. -/
theorem references_of_earlier_columns :
    let start : Workspace := { settings := unparsed, globs := [] }
    let text := "CREATE TABLE T (X INT)\nGO\nSELECT X, Y FROM T".toList
    let files := [("a.sql", text), ("b.sql", "CREATE TABLE T (Y INT)".toList)]
    ∃ outcomes w' found, ofSettings unparsed = .ok start ∧
      start.indexBatch files = .ok (outcomes, w') ∧ outcomes[0]? = some (.indexed found) ∧
      ¬ (w'.index.referencesInFile "a.sql").Perm (extractReferences "a.sql" text (.ofText text)
        w'.index.columns.hasColumn start.settings.maxReferences).references := by
  intro start text files
  let x := Name.ofText "t.x"
  have hrun : (start.indexBatch files).toOption.map (fun r => (r.1[0]?,
      (r.2.index.referencesTo "a.sql" x).length, (extractReferences "a.sql" text (.ofText text)
        r.2.index.columns.hasColumn start.settings.maxReferences).references.map (·.name))) =
      some (some (.indexed ⟨3, 1, 2, 0, false⟩), 1, [.ofText "t", .ofText "t.y"]) := by decide +kernel
  cases h : start.indexBatch files with
  | error fault => rw [h] at hrun; cases hrun
  | ok result =>
    rw [h] at hrun
    obtain ⟨outcomes, w'⟩ := result
    obtain ⟨hfound, hrest⟩ := Prod.mk.inj (Option.some.inj hrun)
    obtain ⟨hstored, hnames⟩ := Prod.mk.inj hrest
    refine ⟨outcomes, w', _, rfl, rfl, hfound, fun hperm => ?_⟩
    obtain ⟨kept, w₀, hkept, hunderway, -, -, -, -, hindexed⟩ :=
      indexBatch_starts standing_empty (by decide) h
    obtain ⟨⟨front, back, hx, -⟩, -⟩ :=
      (passed_indexFiles (by decide) hunderway hkept (.refl files) hindexed).1
    -- a reference to the column that is no more
    obtain ⟨r, hr⟩ := List.exists_mem_of_length_pos (hstored ▸ Nat.zero_lt_one)
    have hname : r.name = x := (hx.consistent.references.stored hr).1
    have hmem := List.mem_map_of_mem (f := (·.name))
      (hperm.mem_iff.mp (hx.consistent.mem_referencesInFile.mpr (hname ▸ hr)))
    rw [hnames, hname] at hmem
    revert hmem
    decide

end Workspace

end SqlAtlas
