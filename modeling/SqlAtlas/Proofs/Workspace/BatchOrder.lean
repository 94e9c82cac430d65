import SqlAtlas.Proofs.Filter
import SqlAtlas.Proofs.Workspace.Batch

/-!
# Batches in any order

Where no two files of a batch define the same table, no turn moves columns, so every file is indexed
with the columns at the end. In an empty workspace these are the same in whatever order the files
come, and so is everything that the index answers.
-/

namespace SqlAtlas

set_option autoImplicit false

open SymbolIndex ColumnRegistry

/-! ### Batches that succeed -/

namespace Workspace

theorem indexFile_of_answer {w : Workspace} {file : String × List Char} {reason : Option SkipReason}
    (h : w.skipReason? file.1 (Text.size file.2) = .ok reason) :
    ∃ outcome w', w.indexFile file.1 file.2 = .ok (outcome, w') := by
  rw [indexFile, h]
  cases reason with
  | none => exact ⟨_, _, rfl⟩
  | some reason => exact ⟨_, _, rfl⟩

section

variable {w : Workspace} (hfragments : [] ∉ w.settings.fragments)

include hfragments

theorem skipReason?_isOk (uri : String) (bytes : Nat) :
    ∃ reason, w.skipReason? uri bytes = .ok reason :=
  skipReason?_isOk_iff.mpr fun h => hfragments h.2.mem

theorem eligible_isOk (files : List (String × List Char)) : ∃ kept, w.eligible files = .ok kept := by
  induction files with
  | nil => exact ⟨[], rfl⟩
  | cons file files ih =>
    obtain ⟨kept, hkept⟩ := ih
    obtain ⟨reason, hreason⟩ := skipReason?_isOk hfragments file.1 (Text.size file.2)
    rw [eligible, hreason, hkept]
    cases reason with
    | none => exact ⟨_, rfl⟩
    | some reason => exact ⟨_, rfl⟩

theorem indexFile_isOk (file : String × List Char) :
    ∃ outcome w', w.indexFile file.1 file.2 = .ok (outcome, w') := by
  obtain ⟨reason, hreason⟩ := skipReason?_isOk hfragments file.1 (Text.size file.2)
  exact indexFile_of_answer hreason

theorem indexFiles_isOk (files : List (String × List Char)) :
    ∃ outcomes w', w.indexFiles files = .ok (outcomes, w') := by
  induction files generalizing w with
  | nil => exact ⟨[], w, rfl⟩
  | cons file files ih =>
    obtain ⟨outcome, next, hfile⟩ := indexFile_isOk hfragments file
    have hsettings := (indexFile_cases hfile).1
    obtain ⟨outcomes, w', hrest⟩ := ih (hsettings ▸ hfragments)
    rw [indexFiles, hfile]
    simp only [hrest]
    exact ⟨_, _, rfl⟩

theorem indexBatch_isOk (files : List (String × List Char)) :
    ∃ outcomes w', w.indexBatch files = .ok (outcomes, w') := by
  obtain ⟨kept, hkept⟩ := eligible_isOk hfragments files
  rw [indexBatch, hkept]
  exact indexFiles_isOk (settings_publishDefinitions kept w ▸ hfragments) files

end

/-! ### Batches without contention -/

/-- What a batch leaves of an empty workspace where every file is indexed with the columns at the
end. -/
structure Completed (w : Workspace) (files : List (String × List Char))
    (outcomes : List IndexOutcome) (x : SymbolIndex) : Prop where
  standing : ∃ known, Standing x known
  outcomes : outcomes.map IndexOutcome.unnumbered = files.map (w.verdict x.columns.hasColumn)
  indexed : ∀ file ∈ files, w.Takes file → UpToDate w.settings.maxReferences file x
  others : ∀ uri, (∀ file ∈ files, w.Takes file → file.1 ≠ uri) → x.generation? uri = none

theorem completed_indexBatch {w w' : Workspace} {files : List (String × List Char)}
    {outcomes : List IndexOutcome} (hw : w.index = {}) (hdistinct : (files.map (·.1)).Nodup)
    (hone : ∀ f ∈ files, ∀ g ∈ files, w.Takes f → w.Takes g → f ≠ g → ¬ Contend f g)
    (h : w.indexBatch files = .ok (outcomes, w')) : Completed w files outcomes w'.index := by
  have hempty : Standing w.index [] := hw ▸ standing_empty
  have hquiet : ∀ file ∈ files, w.Quiet files file := by
    intro file hfile
    constructor
    · intro htakes other hother hothertakes hne
      exact hone file hfile other hother htakes hothertakes fun heq => hne (congrArg _ heq.symm)
    · intro _ s hs
      rw [hw] at hs
      cases hs
  obtain ⟨kept, w₀, hkept, hunderway, hfilter, hsettings, helsewhere, hquiets, hindexed⟩ :=
    indexBatch_starts hempty hdistinct h
  obtain ⟨hpassed, hlength⟩ := passed_indexFiles hdistinct hunderway hkept (.refl files) hindexed
  have hturn : ∀ {before : List (String × List Char)} {file : String × List Char}
      {after : List (String × List Char)}, files = before ++ file :: after → ∃ outcome,
      outcomes[before.length]? = some outcome ∧
        outcome.unnumbered = w.verdict w'.index.columns.hasColumn file ∧
        ((w.Takes file ∧ UpToDate w.settings.maxReferences file w'.index) ∨
          ¬ w.Takes file ∧ (∃ reason, outcome = .skipped reason) ∧
            w'.index.generation? file.1 = none) := by
    intro before file after hfiles
    have hlater : ∀ later ∈ after, w₀.Quiet files later := by
      intro later hlater
      have hmem : later ∈ files := by
        rw [hfiles]
        exact List.mem_append_right _ (List.mem_cons_of_mem _ hlater)
      exact hquiets later (hquiet later hmem) hmem
    have hturn := upToDate_indexFiles hdistinct hunderway hkept hfiles hlater hindexed
    rwa [verdict_congr hfilter hsettings, takes_congr hfilter, hsettings] at hturn
  obtain ⟨front, back, hstanding, -⟩ := hpassed.underway
  refine ⟨⟨_, hstanding⟩, ?_, ?_, ?_⟩
  · apply List.ext_getElem
    · rw [List.length_map, List.length_map, hlength]
    · intro i hi hi'
      rw [List.length_map] at hi hi'
      have hfiles : files = files.take i ++ files[i] :: files.drop (i + 1) := by
        rw [List.getElem_cons_drop, List.take_append_drop]
      obtain ⟨outcome, houtcome, hverdict, -⟩ := hturn hfiles
      rw [List.length_take, min_eq_left (Nat.le_of_lt hi'), List.getElem?_eq_getElem hi] at houtcome
      rw [List.getElem_map, List.getElem_map, Option.some.inj houtcome, hverdict]
  · intro file hfile htakes
    obtain ⟨before, after, hfiles⟩ := List.append_of_mem hfile
    obtain ⟨outcome, -, -, ⟨-, hupToDate⟩ | ⟨hskipped, -⟩⟩ := hturn hfiles
    · exact hupToDate
    · exact absurd htakes hskipped
  · intro uri hothers
    by_cases huri : uri ∈ files.map (·.1)
    · obtain ⟨file, hfile, rfl⟩ := List.mem_map.mp huri
      obtain ⟨before, after, hfiles⟩ := List.append_of_mem hfile
      obtain ⟨outcome, -, -, ⟨htakes, -⟩ | ⟨-, -, hgone⟩⟩ := hturn hfiles
      · exact absurd rfl (hothers file hfile htakes)
      · exact hgone
    · have hfresh : uri ∉ kept.map (·.1) := by
        intro hmem
        obtain ⟨file, hfile, rfl⟩ := List.mem_map.mp hmem
        exact huri (List.mem_map_of_mem ((hkept file).mp hfile).1)
      rw [(hpassed.elsewhere uri huri).generation, (helsewhere uri hfresh).generation, hw]
      rfl

/-! ### The index of a completed batch -/

section

variable {w : Workspace} {files files' : List (String × List Char)}
  {outcomes outcomes' : List IndexOutcome} {x x' : SymbolIndex}

theorem Completed.mem_known_iff (h : Completed w files outcomes x)
    {known : List (String × List SymbolDef)} (hknown : Holds x known)
    (f : String × List SymbolDef) : f ∈ known ↔ ∃ file ∈ files, w.Takes file ∧ defined file = f := by
  have hsymbols : ∀ file ∈ files, w.Takes file → x.symbolsInFile file.1 = definitions file.1 file.2 := by
    intro file hfile htakes
    rw [symbolsInFile, (h.indexed file hfile htakes).symbols]
    rfl
  constructor
  · intro hf
    by_contra hnone
    push Not at hnone
    have hgone : x.generation? f.1 = none := by
      refine h.others f.1 fun file hfile htakes heq => hnone file hfile htakes ?_
      refine Prod.ext heq ?_
      rw [← hknown.symbols f hf, ← heq, hsymbols file hfile htakes]
      rfl
    have hkey := (hknown.indexed f.1).mpr (List.mem_map_of_mem hf)
    rw [Dict.mem_keys_iff] at hkey
    change (x.generation? f.1).isSome = true at hkey
    rw [hgone] at hkey
    cases hkey
  · rintro ⟨file, hfile, htakes, rfl⟩
    have hkey : file.1 ∈ x.generations.keys :=
      (Dict.mem_keys_iff _ _).mpr (h.indexed file hfile htakes).indexed
    obtain ⟨f, hf, hsame⟩ := List.mem_map.mp ((hknown.indexed file.1).mp hkey)
    have heq : f = defined file := by
      refine Prod.ext hsame ?_
      rw [← hknown.symbols f hf, hsame, hsymbols file hfile htakes]
      rfl
    exact heq ▸ hf

variable (h : Completed w files outcomes x) (h' : Completed w files' outcomes' x')
  (hsame : ∀ file, file ∈ files ↔ file ∈ files')
  (hone : ∀ f ∈ files, ∀ g ∈ files, w.Takes f → w.Takes g → f ≠ g → ¬ Contend f g)

include h h' hsame hone

theorem Completed.contributions_eq (table : Name) :
    x.columns.contributions table = x'.columns.contributions table := by
  obtain ⟨known, hknown⟩ := h.standing
  obtain ⟨known', hknown'⟩ := h'.standing
  have hnodup := List.Nodup.of_map _ hknown.holds.distinct
  rw [hknown.holds.contributions, hknown'.holds.contributions]
  refine contributionsOf_perm ?_ hnodup ?_
  · rw [List.perm_ext_iff_of_nodup hnodup (List.Nodup.of_map _ hknown'.holds.distinct)]
    intro f
    rw [h.mem_known_iff hknown.holds, h'.mem_known_iff hknown'.holds]
    simp only [hsame]
  · intro f hf g hg hne
    obtain ⟨file, hfile, htakes, rfl⟩ := (h.mem_known_iff hknown.holds f).mp hf
    obtain ⟨other, hother, hothertakes, rfl⟩ := (h.mem_known_iff hknown.holds g).mp hg
    exact tableDefinition?_of_not_contend
      (hone file hfile other hother htakes hothertakes fun heq => hne (congrArg defined heq)) table

theorem Completed.sameAt (uri : String) :
    x.symbolsByFile.get? uri = x'.symbolsByFile.get? uri ∧
      (∀ name, x.referencesTo uri name = x'.referencesTo uri name) ∧
      x.aliasesForFile? uri = x'.aliasesForFile? uri ∧
      (x.generation? uri).isSome = (x'.generation? uri).isSome := by
  by_cases hindexed : ∃ file ∈ files, w.Takes file ∧ file.1 = uri
  · obtain ⟨file, hfile, htakes, rfl⟩ := hindexed
    have hx := h.indexed file hfile htakes
    have hx' := h'.indexed file ((hsame file).mp hfile) htakes
    refine ⟨hx.symbols.trans hx'.symbols.symm, fun name => ?_, hx.aliases.trans hx'.aliases.symm,
      hx.indexed.trans hx'.indexed.symm⟩
    rw [hx.references, hx'.references, hasColumn_congr (h.contributions_eq h' hsame hone)]
  · push Not at hindexed
    obtain ⟨known, hknown⟩ := h.standing
    obtain ⟨known', hknown'⟩ := h'.standing
    have hgone : x.generation? uri = none := h.others uri hindexed
    have hgone' : x'.generation? uri = none :=
      h'.others uri fun file hfile => hindexed file ((hsame file).mpr hfile)
    obtain ⟨hsymbols, hreferences, haliases⟩ := hknown.unknown hgone
    obtain ⟨hsymbols', hreferences', haliases'⟩ := hknown'.unknown hgone'
    refine ⟨hsymbols.trans hsymbols'.symm, fun name => ?_, haliases.trans haliases'.symm, ?_⟩
    · rw [hreferences, hreferences']
    · rw [hgone, hgone']

theorem Completed.sameAnswers : SameAnswers x x' := by
  obtain ⟨known, hknown⟩ := h.standing
  obtain ⟨known', hknown'⟩ := h'.standing
  have halike : Alike x x' := by
    constructor
    case symbols => exact fun uri => (h.sameAt h' hsame hone uri).1
    case references => exact fun uri => (h.sameAt h' hsame hone uri).2.1
    case aliases => exact fun uri => (h.sameAt h' hsame hone uri).2.2.1
    case indexed => exact fun uri => (h.sameAt h' hsame hone uri).2.2.2
    case contributions => exact h.contributions_eq h' hsame hone
  exact halike.sameAnswers hknown.consistent hknown'.consistent hknown.holds.tidy hknown'.holds.tidy

end

/-- In an empty workspace without an empty fragment, a batch in which no table is defined by two
files that are not left out gives the same in every order: what becomes of each file, apart from the
number of its generation, and every answer of the index. -/
theorem indexBatch_perm {settings : Settings} {w : Workspace} (hw : ofSettings settings = .ok w)
    (hfragments : [] ∉ settings.fragments) {files files' : List (String × List Char)}
    (hdistinct : (files.map (·.1)).Nodup)
    (hone : ∀ f ∈ files, ∀ g ∈ files, w.Takes f → w.Takes g → f ≠ g → ¬ Contend f g)
    (hperm : files.Perm files') :
    ∃ outcomes v outcomes' v', w.indexBatch files = .ok (outcomes, v) ∧
      w.indexBatch files' = .ok (outcomes', v') ∧
      outcomes.length = files.length ∧ outcomes'.length = files'.length ∧
      ((files.map (·.1)).zip (outcomes.map IndexOutcome.unnumbered)).Perm
        ((files'.map (·.1)).zip (outcomes'.map IndexOutcome.unnumbered)) ∧
      SameAnswers v.index v'.index := by
  have hstart : w.settings = settings ∧ w.index = {} := by
    obtain ⟨hsettings, -, hrecord⟩ := Execution.record_ofCallers hw []
    exact ⟨hsettings, congrArg Record.index hrecord⟩
  have hmem : ∀ file, file ∈ files ↔ file ∈ files' := fun file => hperm.mem_iff
  have hfragments' : [] ∉ w.settings.fragments := hstart.1 ▸ hfragments
  obtain ⟨outcomes, v, hbatch⟩ := indexBatch_isOk hfragments' files
  obtain ⟨outcomes', v', hbatch'⟩ := indexBatch_isOk hfragments' files'
  have hcompleted := completed_indexBatch hstart.2 hdistinct hone hbatch
  have hcompleted' : Completed w files' outcomes' v'.index := by
    refine completed_indexBatch hstart.2 ((hperm.map (·.1)).nodup hdistinct) ?_ hbatch'
    simpa only [← hmem] using hone
  have hcolumns := hasColumn_congr (hcompleted.contributions_eq hcompleted' hmem hone)
  refine ⟨outcomes, v, outcomes', v', hbatch, hbatch', ?_, ?_, ?_,
    hcompleted.sameAnswers hcompleted' hmem hone⟩
  · simpa using congrArg List.length hcompleted.outcomes
  · simpa using congrArg List.length hcompleted'.outcomes
  · rw [hcompleted.outcomes, hcompleted'.outcomes, hcolumns, List.zip_map', List.zip_map']
    exact hperm.map fun file => (file.1, w.verdict v'.index.columns.hasColumn file)

/-- A table, a query of it and a file that is left out. -/
theorem indexBatch_perm_query :
    let w : Workspace := { settings := unparsed, globs := [] }
    let table := ("t.sql", "CREATE TABLE T (A INT)".toList)
    let query := ("q.sql", "SELECT A FROM T".toList)
    let notes := ("t.txt", "CREATE TABLE T (B INT)".toList)
    (ofSettings unparsed = .ok w ∧ [] ∉ unparsed.fragments ∧
      ([table, query, notes].map (·.1)).Nodup ∧
      (∀ f ∈ [table, query, notes], ∀ g ∈ [table, query, notes], w.Takes f → w.Takes g → f ≠ g →
        ¬ Contend f g) ∧ [table, query, notes].Perm [query, notes, table]) ∧
      ∃ outcomes v outcomes' v', w.indexBatch [table, query, notes] = .ok (outcomes, v) ∧
        w.indexBatch [query, notes, table] = .ok (outcomes', v') ∧
        (["t.sql", "q.sql", "t.txt"].zip (outcomes.map IndexOutcome.unnumbered)).Perm
          (["q.sql", "t.txt", "t.sql"].zip (outcomes'.map IndexOutcome.unnumbered)) ∧
        SameAnswers v.index v'.index := by
  intro w table query notes
  have hone : ∀ f ∈ [table, query, notes], ∀ g ∈ [table, query, notes], w.Takes f → w.Takes g →
      f ≠ g → ¬ Contend f g := by decide +kernel
  have hperm : [table, query, notes].Perm [query, notes, table] := by decide
  have hsettings : ofSettings unparsed = .ok w := rfl
  have hfragments : [] ∉ unparsed.fragments := by decide
  have hdistinct : ([table, query, notes].map (·.1)).Nodup := by decide
  obtain ⟨outcomes, v, outcomes', v', hbatch, hbatch', -, -, hsame, hanswers⟩ :=
    indexBatch_perm hsettings hfragments hdistinct hone hperm
  exact ⟨⟨hsettings, hfragments, hdistinct, hone, hperm⟩, outcomes, v, outcomes', v', hbatch, hbatch',
    hsame, hanswers⟩

end Workspace

end SqlAtlas
