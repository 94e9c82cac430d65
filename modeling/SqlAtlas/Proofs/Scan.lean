import SqlAtlas.Proofs.Filter
import SqlAtlas.Proofs.Workspace.BatchOrder
import SqlAtlas.Scan

/-!
# Scans count every file once

The walk, the filter and the reading of files come before the first file is indexed, so a scan that fails
leaves the workspace as it was. A scan that reports has either indexed or skipped every SQL file that it
met, and indexed as one batch what it has read.
-/

namespace SqlAtlas

set_option autoImplicit false

open Text Settings

/-! ### Names of SQL files -/

instance (uri : List Char) : Decidable (NamesSql uri) := decidable_of_iff _ endsFolded_iff

theorem suffix_append_cons_iff {α : Type} {a : α} {end_ front back : List α} (ha : a ∉ end_) :
    end_ <:+ front ++ a :: back ↔ end_ <:+ back := by
  constructor
  · intro h
    rcases List.suffix_or_suffix_of_suffix h (List.suffix_append front (a :: back)) with hend | hback
    · rcases List.suffix_cons_iff.mp hend with rfl | hend
      · exact absurd List.mem_cons_self ha
      · exact hend
    · exact absurd (hback.subset List.mem_cons_self) ha
  · intro h
    exact h.trans ((List.suffix_cons a back).trans (List.suffix_append front (a :: back)))

theorem suffix_map_congr {α β : Type} {f g : α → β} {end_ : List β} {xs : List α}
    (hf : ∀ x, f x ∈ end_ → f x = g x) (h : end_ <:+ xs.map f) : end_ <:+ xs.map g := by
  obtain ⟨tail, htail, rfl⟩ := List.suffix_map_iff.mp h
  exact List.suffix_map_iff.mpr
    ⟨tail, htail, List.map_congr_left fun x hx => hf x (List.mem_map_of_mem hx)⟩

def slashed (c : Char) : Char := if c = '\\' then '/' else c

theorem uriOfPath_eq (path : List Char) :
    ∃ front, uriOfPath path = front ++ '/' :: path.map slashed := by
  rw [uriOfPath]
  split
  · exact ⟨"file:/".toList, rfl⟩
  · exact ⟨"file://".toList, rfl⟩

theorem namesSql_uriOfPath {path : List Char} : NamesSql (uriOfPath path) ↔ NamesSql path := by
  have hending : asciiLower ".sql".toList = ['.', 's', 'q', 'l'] := rfl
  have hslash : '/' ∉ ['.', 's', 'q', 'l'] := by decide
  have hbackslash : '\\' ∉ ['.', 's', 'q', 'l'] := by decide
  -- a slash and a backslash are both no characters of the ending
  have hagree : ∀ c : Char, (slashed c).toLower = c.toLower ∨
      (slashed c).toLower = '/' ∧ c.toLower = '\\' := by
    intro c
    by_cases hc : c = '\\'
    · subst hc
      exact Or.inr ⟨rfl, rfl⟩
    · exact Or.inl (by rw [slashed, if_neg hc])
  obtain ⟨front, huri⟩ := uriOfPath_eq path
  rw [NamesSql, NamesSql, huri, asciiLower_append, asciiLower_cons, hending,
    show '/'.toLower = '/' from rfl, suffix_append_cons_iff hslash]
  constructor
  · rw [asciiLower, List.map_map]
    refine suffix_map_congr fun c hc => ?_
    rcases hagree c with heq | ⟨heq, -⟩
    · exact heq
    · exact absurd (heq ▸ hc) hslash
  · rw [asciiLower, asciiLower, List.map_map]
    refine suffix_map_congr fun c hc => ?_
    rcases hagree c with heq | ⟨-, heq⟩
    · exact heq.symm
    · exact absurd (heq ▸ hc) hbackslash

/-! ### The files of a tree -/

namespace FileTree

mutual

def sqlFiles (path : List Char) : FileTree → Nat
  | file _ _ => if NamesSql path then 1 else 0
  | folder entries => entrySqlFiles path entries
  | closed | other => 0

def entrySqlFiles (path : List Char) : List (List Char × FileTree) → Nat
  | [] => 0
  | (name, tree) :: rest => sqlFiles (join path name) tree + entrySqlFiles path rest

end

end FileTree

def Visit.isSql : Visit → Bool
  | .file path _ _ => decide (NamesSql path)
  | .failure => false

namespace FileTree

mutual

theorem countP_visits (path : List Char) (tree : FileTree) :
    (tree.visits path).countP Visit.isSql = tree.sqlFiles path := by
  cases tree with
  | file size contents => simp [visits, sqlFiles, Visit.isSql, List.countP_cons]
  | folder entries => exact countP_entryVisits path entries
  | closed => rfl
  | other => rfl

theorem countP_entryVisits (path : List Char) (entries : List (List Char × FileTree)) :
    (entryVisits path entries).countP Visit.isSql = entrySqlFiles path entries := by
  cases entries with
  | nil => rfl
  | cons entry rest =>
    rw [entryVisits, entrySqlFiles, List.countP_append, countP_visits, countP_entryVisits]

end

end FileTree

/-! ### What a scan selects and reads -/

def readFile? (file : List Char × Option (List UInt8)) : Option (String × List Char) :=
  (file.2.bind decodeFile).map (String.ofList (uriOfPath file.1), ·)

namespace Workspace

def chosen? (w : Workspace) : Visit → Option (List Char × Option (List UInt8))
  | .file path size contents =>
    if w.skipReason? (String.ofList (uriOfPath path)) size = .ok none then some (path, contents)
    else none
  | .failure => none

def chosen (w : Workspace) (visits : List Visit) : List (List Char × Option (List UInt8)) :=
  visits.filterMap w.chosen?

theorem skipReason?_eq_notSql_iff {w : Workspace} {uri : String} {bytes : Nat} :
    w.skipReason? uri bytes = .ok (some .notSql) ↔ ¬NamesSql uri.toList := by
  refine ⟨fun h hsql => ?_, skipReason?_of_not_sql⟩
  by_cases hlarge : w.settings.maxFileBytes < bytes
  · cases (skipReason?_of_large hsql hlarge).symm.trans h
  · have hadmits : w.settings.Admits uri.toList bytes := ⟨hsql, Nat.not_lt.mp hlarge⟩
    rw [skipReason?_of_admits hadmits] at h
    split at h
    · cases h
    · cases h
    · rw [Except.ok.injEq, Option.map_eq_some_iff] at h
      obtain ⟨glob, -, hglob⟩ := h
      cases hglob

theorem isSql_file_iff {w : Workspace} {path : List Char} {size : Nat}
    {contents : Option (List UInt8)} {reason : Option SkipReason}
    (h : w.skipReason? (String.ofList (uriOfPath path)) size = .ok reason) :
    (Visit.file path size contents).isSql = true ↔ reason ≠ some .notSql := by
  have hnot : w.skipReason? (String.ofList (uriOfPath path)) size = .ok (some .notSql) ↔ _ :=
    skipReason?_eq_notSql_iff
  rw [String.toList_ofList, namesSql_uriOfPath, h, Except.ok.injEq] at hnot
  rw [Visit.isSql, decide_eq_true_eq, Ne, hnot, not_not]

structure Selects (w : Workspace) (visits : List Visit) (s : Selection) : Prop where
  whole : .failure ∉ visits
  chosen : s.chosen = w.chosen visits
  counted : s.skipped + s.chosen.length = visits.countP Visit.isSql

section

variable {w : Workspace} {visits : List Visit} {s : Selection} {path : List Char} {size : Nat}
  {contents : Option (List UInt8)}

theorem failure_notMem_cons (h : .failure ∉ visits) : .failure ∉ Visit.file path size contents :: visits :=
  fun hmem => (List.mem_cons.mp hmem).elim nofun h

theorem chosen_of_skipped {reason : SkipReason}
    (h : w.skipReason? (String.ofList (uriOfPath path)) size = .ok (some reason)) :
    w.chosen (.file path size contents :: visits) = w.chosen visits := by
  have hnone : w.chosen? (.file path size contents) = none := by
    rw [chosen?, h]
    exact if_neg nofun
  rw [Workspace.chosen, List.filterMap_cons, hnone, Workspace.chosen]

theorem Selects.choose (h : w.Selects visits s)
    (hreason : w.skipReason? (String.ofList (uriOfPath path)) size = .ok none) :
    w.Selects (.file path size contents :: visits) { s with chosen := (path, contents) :: s.chosen } where
  whole := failure_notMem_cons h.whole
  chosen := by
    rw [Workspace.chosen, List.filterMap_cons, chosen?, if_pos hreason]
    exact congrArg _ h.chosen
  counted := by
    rw [List.countP_cons_of_pos ((isSql_file_iff hreason).mpr nofun), ← h.counted, List.length_cons,
      Nat.add_assoc]

theorem Selects.pass (h : w.Selects visits s)
    (hreason : w.skipReason? (String.ofList (uriOfPath path)) size = .ok (some .notSql)) :
    w.Selects (.file path size contents :: visits) s where
  whole := failure_notMem_cons h.whole
  chosen := h.chosen.trans (chosen_of_skipped hreason).symm
  counted := by
    rw [List.countP_cons_of_neg fun hsql => (isSql_file_iff hreason).mp hsql rfl, h.counted]

theorem Selects.skip (h : w.Selects visits s) {reason : SkipReason}
    (hreason : w.skipReason? (String.ofList (uriOfPath path)) size = .ok (some reason))
    (hne : reason ≠ .notSql) :
    w.Selects (.file path size contents :: visits) { s with skipped := s.skipped + 1 } where
  whole := failure_notMem_cons h.whole
  chosen := h.chosen.trans (chosen_of_skipped hreason).symm
  counted := by
    have hsql : (Visit.file path size contents).isSql = true :=
      (isSql_file_iff hreason).mpr fun heq => hne (Option.some.inj heq)
    rw [List.countP_cons_of_pos hsql, ← h.counted]
    exact Nat.add_right_comm s.skipped 1 s.chosen.length

end

theorem selects_of_select {w : Workspace} {root : List Char} {visits : List Visit} {s : Selection}
    (h : w.select root visits = .ok s) : w.Selects visits s := by
  induction visits generalizing s with
  | nil => cases h; exact ⟨List.not_mem_nil, rfl, rfl⟩
  | cons visit rest ih =>
    cases visit with
    | failure => cases h
    | file path size contents =>
      rw [select.eq_def] at h
      dsimp only at h
      cases hreason : w.skipReason? (String.ofList (uriOfPath path)) size with
      | error fault => rw [hreason] at h; cases h
      | ok reason =>
        cases hrest : w.select root rest with
        | error e => rw [hreason, hrest] at h; cases h
        | ok selected =>
          rw [hreason, hrest] at h
          match reason with
          | none => cases h; exact (ih hrest).choose hreason
          | some .notSql => cases h; exact (ih hrest).pass hreason
          | some (.tooLarge _ _) => cases h; exact (ih hrest).skip hreason nofun
          | some (.excluded _) => cases h; exact (ih hrest).skip hreason nofun

/-- Where no fragment is empty, only the walk can fail. -/
theorem walk_of_select {w : Workspace} (hfragments : [] ∉ w.settings.fragments) {root : List Char}
    {visits : List Visit} {e : ScanError} (h : w.select root visits = .error e) :
    e = .walk root ∧ .failure ∈ visits := by
  induction visits with
  | nil => cases h
  | cons visit rest ih =>
    cases visit with
    | failure => cases h; exact ⟨rfl, List.mem_cons_self⟩
    | file path size contents =>
      obtain ⟨reason, hreason⟩ := skipReason?_isOk hfragments (String.ofList (uriOfPath path)) size
      rw [select.eq_def] at h
      dsimp only at h
      rw [hreason] at h
      cases hrest : w.select root rest with
      | error e' =>
        rw [hrest] at h
        cases h
        exact ⟨(ih hrest).1, List.mem_cons_of_mem _ (ih hrest).2⟩
      | ok s =>
        rw [hrest] at h
        dsimp only at h
        split at h <;> cases h

theorem map_readFile? {chosen : List (List Char × Option (List UInt8))}
    {files : List (String × List Char)} (h : readFiles chosen = .ok files) :
    chosen.map readFile? = files.map some := by
  induction chosen generalizing files with
  | nil => cases h; rfl
  | cons file chosen ih =>
    obtain ⟨path, contents⟩ := file
    rw [readFiles] at h
    rw [List.map_cons, readFile?]
    cases hread : contents.bind decodeFile with
    | none => rw [hread] at h; cases h
    | some text =>
      rw [hread] at h
      cases hrest : readFiles chosen with
      | error e => rw [hrest] at h; cases h
      | ok others => rw [hrest] at h; cases h; rw [ih hrest]; rfl

theorem unreadable_of_readFiles {chosen : List (List Char × Option (List UInt8))} {e : ScanError}
    (h : readFiles chosen = .error e) :
    ∃ file ∈ chosen, readFile? file = none ∧ e = .unreadable file.1 := by
  induction chosen with
  | nil => cases h
  | cons file chosen ih =>
    obtain ⟨path, contents⟩ := file
    rw [readFiles] at h
    cases hread : contents.bind decodeFile with
    | none =>
      rw [hread] at h
      cases h
      exact ⟨_, List.mem_cons_self, by rw [readFile?, hread]; rfl, rfl⟩
    | some text =>
      rw [hread] at h
      cases hrest : readFiles chosen with
      | ok files => rw [hrest] at h; cases h
      | error e' =>
        rw [hrest] at h
        cases h
        obtain ⟨other, hmem, hother⟩ := ih hrest
        exact ⟨other, List.mem_cons_of_mem _ hmem, hother⟩

theorem readFile?_of_readFiles {chosen : List (List Char × Option (List UInt8))}
    {files : List (String × List Char)} (h : readFiles chosen = .ok files) :
    chosen.filterMap readFile? = files ∧ files.length = chosen.length ∧
      ∀ file ∈ chosen, readFile? file ≠ none := by
  have hmap := map_readFile? h
  refine ⟨?_, ?_, fun file hfile hnone => ?_⟩
  · have hid := congrArg (List.filterMap id) hmap
    simpa [List.filterMap_map] using hid
  · simpa using (congrArg List.length hmap).symm
  · have hmem := List.mem_map_of_mem (f := readFile?) hfile
    rw [hmap, hnone] at hmem
    simp at hmem

/-! ### Batches that keep their state -/

theorem indexEach_of_answers {w : Workspace} {files : List (String × List Char)}
    (h : ∀ file ∈ files, ∃ reason, w.skipReason? file.1 (size file.2) = .ok reason) :
    ∃ outcomes w', w.indexFiles files = .ok (outcomes, w') ∧ w.indexEach files = (.ok outcomes, w') := by
  induction files generalizing w with
  | nil => exact ⟨[], w, rfl, rfl⟩
  | cons file files ih =>
    obtain ⟨⟨reason, hreason⟩, hrest⟩ := List.forall_mem_cons.mp h
    obtain ⟨outcome, next, hfile⟩ := indexFile_of_answer hreason
    have hnext : ∀ other ∈ files, ∃ reason, next.skipReason? other.1 (size other.2) = .ok reason := by
      intro other hother
      rw [skipReason?, Execution.filter_indexFile hfile]
      exact hrest other hother
    obtain ⟨outcomes, w', hfiles, heach⟩ := ih hnext
    refine ⟨outcome :: outcomes, w', ?_, ?_⟩
    · rw [indexFiles, hfile]
      simp only [hfiles]
    · rw [indexEach, hfile]
      simp only [heach]
      rfl

theorem answers_of_eligible {w : Workspace} {files kept : List (String × List Char)}
    (h : w.eligible files = .ok kept) :
    ∀ file ∈ files, ∃ reason, w.skipReason? file.1 (size file.2) = .ok reason := by
  induction files generalizing kept with
  | nil => exact nofun
  | cons file files ih =>
    rw [eligible] at h
    refine List.forall_mem_cons.mpr ?_
    split at h
    · cases h
    · cases h
    · rename_i hreason hrest
      exact ⟨⟨_, hreason⟩, ih hrest⟩
    · rename_i hreason hrest
      exact ⟨⟨_, hreason⟩, ih hrest⟩

/-- A batch runs to its end or does not begin. -/
theorem indexTogether_cases (w : Workspace) (files : List (String × List Char)) :
    (∃ fault, w.eligible files = .error fault ∧ w.indexTogether files = (.error fault, w)) ∨
    ∃ outcomes w', w.indexBatch files = .ok (outcomes, w') ∧
      w.indexTogether files = (.ok outcomes, w') := by
  cases hkept : w.eligible files with
  | error fault => exact Or.inl ⟨fault, rfl, by rw [indexTogether, hkept]⟩
  | ok kept =>
    have hanswers : ∀ file ∈ files, ∃ reason,
        (kept.foldl publishDefinitions w).skipReason? file.1 (size file.2) = .ok reason := by
      intro file hfile
      rw [skipReason?, Execution.filter_publishDefinitions]
      exact answers_of_eligible hkept file hfile
    obtain ⟨outcomes, w', hfiles, heach⟩ := indexEach_of_answers hanswers
    refine Or.inr ⟨outcomes, w', ?_, ?_⟩
    · rw [indexBatch, hkept]
      exact hfiles
    · rw [indexTogether, hkept]
      exact heach

end Workspace

/-! ### Totals -/

def IndexOutcome.indexed? : IndexOutcome → Option IndexedFile
  | .indexed file => some file
  | .skipped _ => none

def indexedFiles (outcomes : List IndexOutcome) : List IndexedFile :=
  outcomes.filterMap IndexOutcome.indexed?

@[simp] theorem indexedFiles_indexed (file : IndexedFile) (outcomes : List IndexOutcome) :
    indexedFiles (.indexed file :: outcomes) = file :: indexedFiles outcomes := rfl

@[simp] theorem indexedFiles_skipped (reason : SkipReason) (outcomes : List IndexOutcome) :
    indexedFiles (.skipped reason :: outcomes) = indexedFiles outcomes := rfl

@[simp] theorem countP_skipped_indexed (file : IndexedFile) (outcomes : List IndexOutcome) :
    (IndexOutcome.indexed file :: outcomes).countP (·.indexed?.isNone) =
      outcomes.countP (·.indexed?.isNone) :=
  List.countP_cons_of_neg (by simp [IndexOutcome.indexed?])

@[simp] theorem countP_skipped_skipped (reason : SkipReason) (outcomes : List IndexOutcome) :
    (IndexOutcome.skipped reason :: outcomes).countP (·.indexed?.isNone) =
      outcomes.countP (·.indexed?.isNone) + 1 :=
  List.countP_cons_of_pos rfl

structure ScanReport.Totals (r : ScanReport) (files : List IndexedFile) : Prop where
  indexed : r.indexed = files.length
  ambiguities : r.ambiguities = (files.map (·.ambiguities)).sum
  truncated : r.truncated = files.countP (·.truncated)

theorem ScanReport.foldl_add (outcomes : List IndexOutcome) (r : ScanReport) :
    outcomes.foldl ScanReport.add r =
      ⟨r.indexed + (indexedFiles outcomes).length,
        r.skipped + outcomes.countP (·.indexed?.isNone),
        r.ambiguities + ((indexedFiles outcomes).map (·.ambiguities)).sum,
        r.truncated + (indexedFiles outcomes).countP (·.truncated)⟩ := by
  induction outcomes generalizing r with
  | nil => rfl
  | cons outcome outcomes ih =>
    rw [List.foldl_cons, ih]
    cases outcome with
    | skipped reason => simp [ScanReport.add, Nat.add_assoc, Nat.add_comm 1]
    | indexed file =>
      cases htruncated : file.truncated <;>
        simp [ScanReport.add, htruncated, Nat.add_assoc, Nat.add_comm 1]

theorem totals_foldl_add (outcomes : List IndexOutcome) (skipped : Nat) :
    ScanReport.Totals (outcomes.foldl ScanReport.add { skipped }) (indexedFiles outcomes) := by
  rw [ScanReport.foldl_add]
  exact ⟨Nat.zero_add _, Nat.zero_add _, Nat.zero_add _⟩

theorem length_indexedFiles (outcomes : List IndexOutcome) :
    (indexedFiles outcomes).length + outcomes.countP (·.indexed?.isNone) = outcomes.length := by
  induction outcomes with
  | nil => rfl
  | cons outcome outcomes ih =>
    cases outcome with
    | skipped reason => simp [← ih, Nat.add_assoc]
    | indexed file => simp [← ih, Nat.add_right_comm]

theorem counted_foldl_add (outcomes : List IndexOutcome) (skipped : Nat) :
    (outcomes.foldl ScanReport.add { skipped }).indexed +
      (outcomes.foldl ScanReport.add { skipped }).skipped = skipped + outcomes.length := by
  rw [ScanReport.foldl_add, ← length_indexedFiles]
  dsimp only
  omega

namespace Workspace

theorem length_indexFiles {w w' : Workspace} {files : List (String × List Char)}
    {outcomes : List IndexOutcome} (h : w.indexFiles files = .ok (outcomes, w')) :
    outcomes.length = files.length := by
  induction files generalizing w outcomes with
  | nil => cases h; rfl
  | cons file files ih =>
    rw [indexFiles] at h
    split at h
    · cases h
    · split at h
      · cases h
      · rename_i hrest
        cases h
        rw [List.length_cons, List.length_cons, ih hrest]

theorem length_indexBatch {w w' : Workspace} {files : List (String × List Char)}
    {outcomes : List IndexOutcome} (h : w.indexBatch files = .ok (outcomes, w')) :
    outcomes.length = files.length := by
  rw [indexBatch] at h
  split at h
  · cases h
  · exact length_indexFiles h

/-! ### Scheduled corrections -/

def ambiguitiesOf (outcomes : List IndexOutcome) : Nat :=
  ((indexedFiles outcomes).map (·.ambiguities)).sum

theorem ambiguitiesOf_cons (outcome : IndexOutcome) (outcomes : List IndexOutcome) :
    ambiguitiesOf (outcome :: outcomes) = ambiguitiesOf [outcome] + ambiguitiesOf outcomes := by
  cases outcome with
  | indexed file => rfl
  | skipped reason => exact (Nat.zero_add _).symm

theorem scheduled_schedule {w : Workspace} (h : w.corrects = true) (uri : String) (generation : Nat)
    (as : List Ambiguity) :
    (w.schedule uri generation as).counts.scheduled = w.counts.scheduled + as.length := by
  rw [schedule, if_pos h]

theorem scheduled_publish {w : Workspace} (h : w.corrects = true) (uri : String) (text : List Char) :
    (w.publish uri text).2.counts.scheduled =
      w.counts.scheduled + (w.publish uri text).1.ambiguities := by
  rw [publish]
  exact scheduled_schedule (by exact h) uri _ _

theorem scheduled_indexFile {w w' : Workspace} (hcorrects : w.corrects = true) {uri : String}
    {text : List Char} {outcome : IndexOutcome} (h : w.indexFile uri text = .ok (outcome, w')) :
    w'.counts.scheduled = w.counts.scheduled + ambiguitiesOf [outcome] := by
  rw [indexFile] at h
  split at h
  · cases h
  · cases h
    split <;> rfl
  · change Except.ok (IndexOutcome.indexed (w.publish uri text).1, (w.publish uri text).2) = _ at h
    cases h
    rw [scheduled_publish hcorrects]
    rfl

theorem scheduled_indexFiles {w w' : Workspace} (hcorrects : w.corrects = true)
    {files : List (String × List Char)} {outcomes : List IndexOutcome}
    (h : w.indexFiles files = .ok (outcomes, w')) :
    w'.counts.scheduled = w.counts.scheduled + ambiguitiesOf outcomes := by
  induction files generalizing w outcomes with
  | nil => cases h; rfl
  | cons file files ih =>
    rw [indexFiles] at h
    split at h
    · cases h
    · rename_i outcome next hfile
      split at h
      · cases h
      · rename_i rest _ hrest
        cases h
        have hnext : next.corrects = true := by
          rw [corrects, (indexFile_cases hfile).1]
          exact hcorrects
        rw [ih hnext hrest, scheduled_indexFile hcorrects hfile, ambiguitiesOf_cons outcome rest,
          Nat.add_assoc]

theorem counts_publishDefinitions (kept : List (String × List Char)) (w : Workspace) :
    (kept.foldl publishDefinitions w).counts = w.counts := by
  induction kept generalizing w with
  | nil => rfl
  | cons file kept ih => exact ih (w.publishDefinitions file)

theorem scheduled_indexBatch {w w' : Workspace} (hcorrects : w.corrects = true)
    {files : List (String × List Char)} {outcomes : List IndexOutcome}
    (h : w.indexBatch files = .ok (outcomes, w')) :
    w'.counts.scheduled = w.counts.scheduled + ambiguitiesOf outcomes := by
  rw [indexBatch] at h
  split at h
  · cases h
  · rename_i kept _
    have hpublished : (kept.foldl publishDefinitions w).corrects = true := by
      rw [corrects, settings_publishDefinitions]
      exact hcorrects
    rw [scheduled_indexFiles hpublished h, counts_publishDefinitions]

/-! ### Scans -/

inductive Blocked (w : Workspace) (root : List Char) (tree : Option FileTree) : ScanError → Prop
  | missing (h : tree = none) : Blocked w root tree (.walk root)
  | walk {t : FileTree} (h : tree = some t) (hwalk : .failure ∈ t.visits root) :
    Blocked w root tree (.walk root)
  | unreadable {t : FileTree} (h : tree = some t) {file : List Char × Option (List UInt8)}
    (hfile : file ∈ w.chosen (t.visits root)) (hread : readFile? file = none) :
    Blocked w root tree (.unreadable file.1)

structure Scanned (w : Workspace) (root : List Char) (tree : FileTree) (r : ScanReport)
    (w' : Workspace) : Prop where
  /-- Every SQL file of the tree is counted once. -/
  counted : r.indexed + r.skipped = tree.sqlFiles root
  /-- The files that were read are one batch, and the report has the totals of what was indexed. -/
  batch : ∃ outcomes, w.indexBatch ((w.chosen (tree.visits root)).filterMap readFile?) =
    .ok (outcomes, w') ∧ r.Totals (indexedFiles outcomes)
  scheduled : w.corrects = true → w'.counts.scheduled = w.counts.scheduled + r.ambiguities

/-- A scan is all or nothing. -/
structure AllOrNothing (w : Workspace) (root : List Char) (tree : Option FileTree)
    (result : Except ScanError ScanReport × Workspace) : Prop where
  unchanged : ∀ e, result.1 = .error e → result.2 = w
  scanned : ∀ r, result.1 = .ok r → ∃ t, tree = some t ∧ w.Scanned root t r result.2
  blocked : [] ∉ w.settings.fragments → ∀ e, result.1 = .error e → w.Blocked root tree e
  reports : [] ∉ w.settings.fragments → ((∃ r, result.1 = .ok r) ↔ ∀ e, ¬w.Blocked root tree e)

theorem scan_cases (w : Workspace) (root : List Char) (tree : Option FileTree) :
    (∃ e, w.scan root tree = (.error e, w) ∧
      ([] ∉ w.settings.fragments → w.Blocked root tree e)) ∨
    ∃ r w' t, w.scan root tree = (.ok r, w') ∧ tree = some t ∧ w.Scanned root t r w' ∧
      ∀ e, ¬w.Blocked root tree e := by
  cases tree with
  | none => exact Or.inl ⟨_, rfl, fun _ => .missing rfl⟩
  | some t =>
    rw [scan]
    cases hselect : w.select root (t.visits root) with
    | error e =>
      refine Or.inl ⟨e, rfl, fun hfragments => ?_⟩
      obtain ⟨rfl, hwalk⟩ := walk_of_select hfragments hselect
      exact .walk rfl hwalk
    | ok s =>
      dsimp only
      obtain ⟨hwhole, hchosen, hcounted⟩ := selects_of_select hselect
      cases hread : readFiles s.chosen with
      | error e =>
        obtain ⟨file, hfile, hnone, rfl⟩ := unreadable_of_readFiles hread
        exact Or.inl ⟨_, rfl, fun _ => .unreadable rfl (hchosen ▸ hfile) hnone⟩
      | ok files =>
        dsimp only
        obtain ⟨hfiles, hlength, hreadable⟩ := readFile?_of_readFiles hread
        rcases indexTogether_cases w files with ⟨fault, hfault, htogether⟩ |
          ⟨outcomes, w', hbatch, htogether⟩
        · rw [htogether]
          refine Or.inl ⟨_, rfl, fun hfragments => ?_⟩
          obtain ⟨kept, hkept⟩ := eligible_isOk hfragments files
          cases hkept.symm.trans hfault
        · rw [htogether]
          refine Or.inr ⟨_, w', t, rfl, rfl, ⟨?_, ?_, fun hcorrects => ?_⟩, fun e hblocked => ?_⟩
          · rw [counted_foldl_add, length_indexBatch hbatch, hlength, hcounted, FileTree.countP_visits]
          · exact ⟨outcomes, by rw [← hchosen, hfiles, hbatch], totals_foldl_add outcomes s.skipped⟩
          · rw [scheduled_indexBatch hcorrects hbatch, (totals_foldl_add outcomes s.skipped).ambiguities,
              ambiguitiesOf]
          · cases hblocked with
            | missing h => cases h
            | walk h hwalk => cases h; exact hwhole hwalk
            | unreadable h hfile hnone => cases h; exact hreadable _ (hchosen ▸ hfile) hnone

/-- A scan that fails leaves the workspace as it was; one that reports has counted every SQL file below the
root once, and the totals over those that it has indexed. -/
theorem scan_all_or_nothing (w : Workspace) (root : List Char) (tree : Option FileTree) :
    w.AllOrNothing root tree (w.scan root tree) := by
  rcases scan_cases w root tree with ⟨e, hscan, hblocked⟩ | ⟨r, w', t, hscan, htree, hscanned, hfree⟩
  · rw [hscan]
    refine ⟨fun _ _ => rfl, nofun, fun hfragments e' h => ?_, fun hfragments => ?_⟩
    · cases h
      exact hblocked hfragments
    · exact iff_of_false nofun fun hfree => hfree e (hblocked hfragments)
  · rw [hscan]
    refine ⟨nofun, fun r' h => ?_, nofun, fun _ => iff_of_true ⟨r, rfl⟩ hfree⟩
    cases h
    exact ⟨t, htree, hscanned⟩

example :
    let t := ((FileTree.folder []).addFile "a.SQL".toList []).addFile "deployment.sql".toList []
    (scan { settings := unparsed, globs := [] } "db".toList (some t)).1 = .ok ⟨1, 1, 0, 0⟩ := by
  decide +kernel

end Workspace

end SqlAtlas
