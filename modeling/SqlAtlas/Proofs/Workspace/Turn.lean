import SqlAtlas.Proofs.Index.Standing
import SqlAtlas.Proofs.Workspace.Settled

/-!
# Turns of a batch

A batch publishes the definitions of its files first and then gives one file after another its turn.
A turn puts the definitions of its file behind those of all others, or takes a file out that is left
out. Nothing else of any other file changes, and no columns move unless the file shares a table with
another file of the batch or had tables and is left out.
-/

namespace SqlAtlas

set_option autoImplicit false

open Workspace SymbolIndex ColumnRegistry

def defined (file : String × List Char) : String × List SymbolDef :=
  (file.1, definitions file.1 file.2)

def Contend (f g : String × List Char) : Prop :=
  ∃ s ∈ definitions f.1 f.2, ∃ t ∈ definitions g.1 g.2,
    s.kind.hasColumns = true ∧ t.kind.hasColumns = true ∧ s.name = t.name

instance (f g : String × List Char) : Decidable (Contend f g) :=
  inferInstanceAs (Decidable (∃ s ∈ definitions f.1 f.2, ∃ t ∈ definitions g.1 g.2, _))

theorem tableDefinition?_of_not_contend {f g : String × List Char} (h : ¬ Contend f g)
    (table : Name) : tableDefinition? table (defined f).2 = none ∨
      tableDefinition? table (defined g).2 = none := by
  rw [tableDefinition?_eq_none_iff, tableDefinition?_eq_none_iff, or_iff_not_imp_left]
  intro hf t ht htable
  push Not at hf
  obtain ⟨s, hs, hname, hcolumns⟩ := hf
  by_contra hother
  exact h ⟨s, hs, t, ht, by simpa using hcolumns, by simpa using hother, hname.trans htable.symm⟩

/-! ### Files of a batch -/

def IndexOutcome.unnumbered : IndexOutcome → IndexOutcome
  | .indexed file => .indexed { file with generation := 0 }
  | .skipped reason => .skipped reason

namespace Workspace

def Takes (w : Workspace) (file : String × List Char) : Prop :=
  w.skipReason? file.1 (Text.size file.2) = .ok none

instance (w : Workspace) (file : String × List Char) : Decidable (w.Takes file) :=
  match h : w.skipReason? file.1 (Text.size file.2) with
  | .ok none => .isTrue h
  | .ok (some _) => .isFalse fun htakes => by cases h.symm.trans htakes
  | .error _ => .isFalse fun htakes => by cases h.symm.trans htakes

/-- The turn of a file in a batch moves no columns: it shares no table with another file of the
batch, and if it is left out, it was indexed without tables. -/
def Quiet (w : Workspace) (files : List (String × List Char)) (file : String × List Char) : Prop :=
  (w.Takes file → ∀ other ∈ files, w.Takes other → other.1 ≠ file.1 → ¬ Contend file other) ∧
    (¬ w.Takes file → ∀ s ∈ w.index.symbolsInFile file.1, s.kind.hasColumns = false)

instance (w : Workspace) (files : List (String × List Char)) (file : String × List Char) :
    Decidable (w.Quiet files file) :=
  inferInstanceAs (Decidable ((_ → _) ∧ (_ → _)))

/-- What becomes of a file where the columns are known; the number of the generation is left open. -/
def verdict (w : Workspace) (hasColumn : Name → Name → Bool) (file : String × List Char) :
    IndexOutcome :=
  match w.skipReason? file.1 (Text.size file.2) with
  | .ok (some reason) => .skipped reason
  | _ =>
    let x := extractReferences file.1 file.2 (.ofText file.2) hasColumn w.settings.maxReferences
    .indexed ⟨0, (definitions file.1 file.2).length, x.references.length, x.ambiguities.length,
      x.truncated⟩

theorem mem_eligible_iff {w : Workspace} {files kept : List (String × List Char)}
    (h : w.eligible files = .ok kept) {file : String × List Char} :
    file ∈ kept ↔ file ∈ files ∧ w.Takes file := by
  refine ⟨fun hfile => Execution.eligible_mem h hfile, ?_⟩
  rintro ⟨hfile, htakes⟩
  induction files generalizing kept with
  | nil => cases hfile
  | cons first rest ih =>
    obtain ⟨uri, text⟩ := first
    rw [eligible] at h
    split at h
    · cases h
    · cases h
    · rename_i others hskip hrest
      cases h
      rcases List.mem_cons.mp hfile with rfl | hfile
      · exact List.mem_cons_self
      · exact List.mem_cons_of_mem _ (ih hrest hfile)
    · rename_i others hskip hrest
      cases h
      rcases List.mem_cons.mp hfile with rfl | hfile
      · cases hskip.symm.trans htakes
      · exact ih hrest hfile

theorem eligible_sublist {w : Workspace} {files kept : List (String × List Char)}
    (h : w.eligible files = .ok kept) : kept.Sublist files := by
  induction files generalizing kept with
  | nil =>
    cases h
    exact .slnil
  | cons first rest ih =>
    obtain ⟨uri, text⟩ := first
    rw [eligible] at h
    split at h
    · cases h
    · cases h
    · rename_i others _ hrest
      cases h
      exact (ih hrest).cons_cons _
    · rename_i others _ hrest
      cases h
      exact (ih hrest).cons _

theorem indexFile_cases {w w' : Workspace} {uri : String} {text : List Char} {outcome : IndexOutcome}
    (h : w.indexFile uri text = .ok (outcome, w')) :
    w'.settings = w.settings ∧ outcome.unnumbered = w.verdict w'.index.columns.hasColumn (uri, text) ∧
      ((¬ w.Takes (uri, text) ∧ (∃ reason, outcome = .skipped reason) ∧ w'.index =
          if (w.index.generation? uri).isSome then w.index.removeFile uri else w.index) ∨
        w.Takes (uri, text) ∧ w'.index = (w.index.replaceFile uri text (definitions uri text)
          (.ofText text) w.settings.maxReferences).2) := by
  rw [indexFile] at h
  rw [verdict]
  cases hskip : w.skipReason? uri (Text.size text) with
  | error fault => rw [hskip] at h; cases h
  | ok reason? =>
    rw [hskip] at h
    cases reason? with
    | some reason =>
      cases h
      refine ⟨by split <;> rfl, rfl, .inl ⟨?_, ⟨reason, rfl⟩, ?_⟩⟩
      · intro htakes
        cases hskip.symm.trans htakes
      · rw [generation?]
        split <;> rfl
    | none =>
      change Except.ok (IndexOutcome.indexed (w.publish uri text).1, (w.publish uri text).2) = _ at h
      cases h
      have hindex : (w.publish uri text).2.index = _ := index_schedule _ _ _ _
      refine ⟨settings_schedule _ _ _ _, ?_, .inr ⟨hskip, hindex⟩⟩
      rw [hindex]
      rfl

end Workspace

/-! ### Turns -/

section

variable {x : SymbolIndex} {files kept : List (String × List Char)} {file : String × List Char}

/-- The definitions of some files stand behind those of all others. -/
def Underway (kept : List (String × List Char)) (x : SymbolIndex) : Prop :=
  ∃ front back, Standing x (front ++ back) ∧ back.Perm (kept.map defined)

theorem Underway.split (h : Underway kept x) (hfile : file ∈ kept) :
    ∃ before after, Standing x (before ++ defined file :: after) ∧
      (∀ g ∈ after, ∃ other ∈ kept, other.1 ≠ file.1 ∧ g = defined other) ∧
      ∀ y, Standing y (before ++ after ++ [defined file]) → Underway kept y := by
  obtain ⟨front, back, hx, hback⟩ := h
  obtain ⟨first, after, rfl⟩ :=
    List.append_of_mem (hback.mem_iff.mpr (List.mem_map_of_mem hfile : defined file ∈ _))
  rw [← List.append_assoc] at hx
  refine ⟨front ++ first, after, hx, ?_, ?_⟩
  · intro g hg
    obtain ⟨other, hother, rfl⟩ := List.mem_map.mp (hback.mem_iff.mp
      (List.mem_append_right _ (List.mem_cons_of_mem _ hg)))
    have hdistinct := hx.holds.distinct
    rw [List.map_append, List.map_cons, List.nodup_append, List.nodup_cons] at hdistinct
    refine ⟨other, hother, ?_, rfl⟩
    intro heq
    exact hdistinct.2.1.1 (List.mem_map.mpr ⟨defined other, hg, heq⟩)
  · intro y hy
    refine ⟨front, first ++ after ++ [defined file], by simpa using hy, ?_⟩
    refine List.Perm.trans ?_ hback
    rw [List.append_assoc]
    exact (List.perm_append_singleton _ after).append_left first

theorem Underway.replace (h : Underway kept x) (hfile : file ∈ kept) (limit : Nat) :
    Underway kept (x.replaceFile file.1 file.2 (definitions file.1 file.2) (.ofText file.2) limit).2 ∧
      ((∀ other ∈ kept, other.1 ≠ file.1 → ¬ Contend file other) → ∀ table,
        (x.replaceFile file.1 file.2 (definitions file.1 file.2) (.ofText file.2)
          limit).2.columns.contributions table = x.columns.contributions table) := by
  obtain ⟨before, after, hx, hothers, hback⟩ := h.split hfile
  have hy := hx.replace file.1 file.2 (definitions file.1 file.2) (.ofText file.2) limit
  have hrest : (before ++ defined file :: after).filter (fun f => decide (f.1 ≠ file.1)) =
      before ++ after := filter_ne_of_nodup hx.holds.distinct
  rw [hrest] at hy
  refine ⟨hback _ hy, fun hquiet table => ?_⟩
  rw [hy.holds.contributions, hx.holds.contributions]
  apply contributionsOf_move (f := defined file)
  intro g hg
  obtain ⟨other, hother, hne, rfl⟩ := hothers g hg
  exact tableDefinition?_of_not_contend (hquiet other hother hne) table

theorem Underway.remove (h : Underway kept x) {uri : String} (huri : ∀ file ∈ kept, file.1 ≠ uri) :
    Underway kept (x.removeFile uri) ∧
      ((∀ s ∈ x.symbolsInFile uri, s.kind.hasColumns = false) → ∀ table,
        (x.removeFile uri).columns.contributions table = x.columns.contributions table) := by
  obtain ⟨front, back, hx, hback⟩ := h
  have hy := hx.remove uri
  refine ⟨⟨front.filter fun f => decide (f.1 ≠ uri), back, ?_, hback⟩, fun hplain table => ?_⟩
  · have hkeep : back.filter (fun f => decide (f.1 ≠ uri)) = back := by
      apply List.filter_eq_self.mpr
      intro f hf
      obtain ⟨file, hfile, rfl⟩ := List.mem_map.mp (hback.mem_iff.mp hf)
      exact decide_eq_true (huri file hfile)
    rwa [List.filter_append, hkeep] at hy
  · rw [hy.holds.contributions, hx.holds.contributions]
    apply contributionsOf_filter
    intro f hf hgone
    have hgone : f.1 = uri := by simpa using hgone
    rw [tableDefinition?_eq_none_iff, ← hx.holds.symbols f hf, hgone]
    exact fun s hs _ => hplain s hs

end

structure SymbolIndex.SameAt (uri : String) (x y : SymbolIndex) : Prop where
  symbols : x.symbolsByFile.get? uri = y.symbolsByFile.get? uri
  references : ∀ name, x.referencesTo uri name = y.referencesTo uri name
  aliases : x.aliasesForFile? uri = y.aliasesForFile? uri
  generation : x.generation? uri = y.generation? uri

theorem SymbolIndex.SameAt.refl (uri : String) (x : SymbolIndex) : SameAt uri x x :=
  ⟨rfl, fun _ => rfl, rfl, rfl⟩

theorem SymbolIndex.SameAt.trans {uri : String} {x y z : SymbolIndex} (h : SameAt uri x y)
    (h' : SameAt uri y z) : SameAt uri x z :=
  ⟨h.symbols.trans h'.symbols, fun name => (h.references name).trans (h'.references name),
    h.aliases.trans h'.aliases, h.generation.trans h'.generation⟩

theorem SymbolIndex.SameElsewhere.sameAt {uri v : String} {x y : SymbolIndex}
    (h : SameElsewhere uri x y) (hv : v ≠ uri) : SameAt v x y :=
  ⟨h.symbols hv, h.references hv, h.aliases hv, h.generations hv⟩

/-- A file is indexed, with the columns that the index has. -/
structure UpToDate (limit : Nat) (file : String × List Char) (x : SymbolIndex) : Prop where
  symbols : x.symbolsByFile.get? file.1 = some (definitions file.1 file.2)
  references : ∀ name, x.referencesTo file.1 name = (extractReferences file.1 file.2
    (.ofText file.2) x.columns.hasColumn limit).references.filter (·.name = name)
  aliases : x.aliasesForFile? file.1 = some (FileScopes.ofText file.2).aliases
  indexed : (x.generation? file.1).isSome = true

theorem upToDate_replaceFile {x : SymbolIndex} (h : Consistent x) (limit : Nat)
    (file : String × List Char) : UpToDate limit file
      (x.replaceFile file.1 file.2 (definitions file.1 file.2) (.ofText file.2) limit).2 where
  symbols := (x.symbolsByFile.get?_insert_erase file.1 file.1 _).trans (if_pos rfl)
  references name := by
    rw [h.referencesTo_replaceFile, if_pos rfl]
    rfl
  aliases := (x.aliasesByFile.get?_insert_erase file.1 file.1 _).trans (if_pos rfl)
  indexed := by
    rw [generation?_replaceFile, if_pos rfl]
    rfl

theorem UpToDate.of_same {limit : Nat} {file : String × List Char} {x y : SymbolIndex}
    (h : UpToDate limit file x) (hsame : SameAt file.1 y x)
    (hcolumns : ∀ table, y.columns.contributions table = x.columns.contributions table) :
    UpToDate limit file y where
  symbols := hsame.symbols.trans h.symbols
  references name := by rw [hsame.references, h.references, hasColumn_congr hcolumns]
  aliases := hsame.aliases.trans h.aliases
  indexed := by rw [hsame.generation, h.indexed]

namespace Workspace

theorem takes_congr {w w' : Workspace} (h : w'.filter = w.filter) (file : String × List Char) :
    w'.Takes file ↔ w.Takes file := by
  rw [Takes, Takes, skipReason?, skipReason?, h]

theorem verdict_congr {w w' : Workspace} (hfilter : w'.filter = w.filter)
    (hsettings : w'.settings = w.settings) : w'.verdict = w.verdict := by
  funext hasColumn file
  rw [verdict, verdict, skipReason?, skipReason?, hfilter, hsettings]

theorem Quiet.congr {w w' : Workspace} {files : List (String × List Char)}
    {file : String × List Char} (h : w.Quiet files file) (hfilter : w'.filter = w.filter)
    (hsymbols : ¬ w.Takes file →
      w'.index.symbolsInFile file.1 = w.index.symbolsInFile file.1) : w'.Quiet files file := by
  constructor
  · intro htakes other hother hothertakes
    rw [takes_congr hfilter] at htakes hothertakes
    exact h.1 htakes other hother hothertakes
  · intro hskipped
    rw [takes_congr hfilter] at hskipped
    rw [hsymbols hskipped]
    exact h.2 hskipped

structure Passed (files kept turns : List (String × List Char)) (w w' : Workspace) : Prop where
  underway : Underway kept w'.index
  settings : w'.settings = w.settings
  filter : w'.filter = w.filter
  elsewhere : ∀ uri, uri ∉ turns.map (·.1) → SameAt uri w'.index w.index
  columns : (∀ file ∈ turns, w.Quiet files file) → ∀ table,
    w'.index.columns.contributions table = w.index.columns.contributions table

section

variable {files kept : List (String × List Char)} {w w' : Workspace} {file : String × List Char}
  {outcome : IndexOutcome} (hdistinct : (files.map (·.1)).Nodup) (hw : Underway kept w.index)
  (hkept : ∀ file, file ∈ kept ↔ file ∈ files ∧ w.Takes file)

include hdistinct hw hkept

theorem passed_indexFile (hfile : file ∈ files)
    (h : w.indexFile file.1 file.2 = .ok (outcome, w')) : Passed files kept [file] w w' := by
  have hfilter := Execution.filter_indexFile h
  obtain ⟨hsettings, _, ⟨hskipped, _, hindex⟩ | ⟨htakes, hindex⟩⟩ := indexFile_cases h
  · have hother : ∀ f ∈ kept, f.1 ≠ file.1 := by
      intro f hf heq
      obtain ⟨hmem, htakes⟩ := (hkept f).mp hf
      rw [List.inj_on_of_nodup_map hdistinct hmem hfile heq] at htakes
      exact hskipped htakes
    cases hgeneration : (w.index.generation? file.1).isSome with
    | true =>
      rw [hgeneration, if_pos rfl] at hindex
      obtain ⟨hunderway, hcolumns⟩ := hw.remove hother
      obtain ⟨front, back, hx, _⟩ := hw
      refine ⟨hindex ▸ hunderway, hsettings, hfilter, ?_, ?_⟩
      · intro uri huri
        rw [hindex]
        exact (hx.consistent.sameElsewhere_remove hx.holds.tidy file.1).sameAt (by simpa using huri)
      · intro hquiet
        rw [hindex]
        exact hcolumns ((hquiet file List.mem_cons_self).2 hskipped)
    | false =>
      rw [hgeneration, if_neg (by simp)] at hindex
      refine ⟨hindex ▸ hw, hsettings, hfilter, fun uri _ => ?_, fun _ table => ?_⟩
      · rw [hindex]
        exact .refl uri w.index
      · rw [hindex]
  · obtain ⟨hunderway, hcolumns⟩ :=
      hw.replace ((hkept file).mpr ⟨hfile, htakes⟩) w.settings.maxReferences
    obtain ⟨front, back, hx, _⟩ := hw
    refine ⟨hindex ▸ hunderway, hsettings, hfilter, ?_, ?_⟩
    · intro uri huri
      rw [hindex]
      exact (hx.consistent.sameElsewhere_replace hx.holds.tidy file.1 _ _ _ _).sameAt
        (by simpa using huri)
    · intro hquiet
      rw [hindex]
      refine hcolumns fun other hother hne => ?_
      obtain ⟨hmem, hothertakes⟩ := (hkept other).mp hother
      exact (hquiet file List.mem_cons_self).1 htakes other hmem hothertakes hne

omit hdistinct hw hkept in
theorem Passed.trans {turns more : List (String × List Char)} {w'' : Workspace}
    (h : Passed files kept turns w w') (h' : Passed files kept more w' w'')
    (hapart : ∀ file ∈ more, file.1 ∉ turns.map (·.1)) :
    Passed files kept (turns ++ more) w w'' where
  underway := h'.underway
  settings := h'.settings.trans h.settings
  filter := h'.filter.trans h.filter
  elsewhere uri huri := by
    rw [List.map_append, List.mem_append, not_or] at huri
    exact (h'.elsewhere uri huri.2).trans (h.elsewhere uri huri.1)
  columns hquiet table := by
    have hlater : ∀ file ∈ more, w'.Quiet files file := by
      intro file hfile
      refine (hquiet file (List.mem_append_right _ hfile)).congr h.filter fun _ => ?_
      rw [symbolsInFile, symbolsInFile, (h.elsewhere file.1 (hapart file hfile)).symbols]
    rw [h'.columns hlater, h.columns fun file hfile => hquiet file (List.mem_append_left _ hfile)]

theorem passed_indexFiles {turns : List (String × List Char)} {outcomes : List IndexOutcome}
    (hturns : turns.Sublist files) (h : w.indexFiles turns = .ok (outcomes, w')) :
    Passed files kept turns w w' ∧ outcomes.length = turns.length := by
  induction turns generalizing w outcomes with
  | nil =>
    cases h
    exact ⟨⟨hw, rfl, rfl, fun uri _ => .refl uri _, fun _ _ => rfl⟩, rfl⟩
  | cons file turns ih =>
    rw [indexFiles] at h
    cases hfile : w.indexFile file.1 file.2 with
    | error fault => rw [hfile] at h; cases h
    | ok first =>
      obtain ⟨outcome, next⟩ := first
      rw [hfile] at h
      simp only at h
      cases hrest : next.indexFiles turns with
      | error fault => rw [hrest] at h; cases h
      | ok last =>
        obtain ⟨others, final⟩ := last
        rw [hrest] at h
        cases h
        have hfirst : Passed files kept [file] w next :=
          passed_indexFile hdistinct hw hkept (hturns.subset List.mem_cons_self) hfile
        have hkeptNext : ∀ file, file ∈ kept ↔ file ∈ files ∧ next.Takes file := by
          intro file
          rw [hkept, takes_congr hfirst.filter]
        obtain ⟨hlater, hlength⟩ := ih hfirst.underway hkeptNext
          ((List.sublist_cons_self file turns).trans hturns) hrest
        refine ⟨hfirst.trans hlater ?_, congrArg (· + 1) hlength⟩
        intro other hother hsame
        have hsame : other.1 = file.1 := List.mem_singleton.mp hsame
        have hnodup := hdistinct.sublist (hturns.map (·.1))
        rw [List.map_cons, List.nodup_cons] at hnodup
        exact hnodup.1 (hsame ▸ List.mem_map_of_mem hother)

end

end Workspace

end SqlAtlas
