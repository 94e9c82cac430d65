import SqlAtlas.Proofs.Index.Generation
import SqlAtlas.Proofs.Workspace.Record

/-!
# What operations lead to

Corrections change nothing but references. The files, their definitions and what is found in them
follow from the operations of a caller alone, and so do the indexings that are written down. Every
file that has a generation has been indexed in it, or will be.
-/

namespace SqlAtlas

set_option autoImplicit false

open Workspace SymbolIndex

/-! ### Outlook -/

def SymbolIndex.skeleton (x : SymbolIndex) : SymbolIndex := { x with references := {} }

theorem SymbolIndex.skeleton_retractAll (uri : String) (place : Text.Extent) (names : List Name)
    (x : SymbolIndex) : (retractAll uri place names x).skeleton = x.skeleton := by
  rw [retractAll_references]
  rfl

def Workspace.Event.isIndexing : Event → Bool
  | indexed .. => true
  | applied .. => false

namespace Workspace

/-- What is left of an index after a task, but for references, and the indexings of the task. -/
def foreseeTask (limit : Nat) (x : SymbolIndex) : Task → SymbolIndex × List Event
  | .define file => ((x.publishDefinitions file.1 (definitions file.1 file.2)).2.skeleton, [])
  | .replace uri text =>
    let (p, index) := x.replaceFile uri text (definitions uri text) (.ofText text) limit
    (index.skeleton, [.indexed uri p.generation p.extracted])
  | .schedule _ => (x, [])
  | .discard uri => (if (x.generation? uri).isSome then (x.removeFile uri).skeleton else x, [])
  | .remove uri => ((x.removeFile uri).skeleton, [])

def foresee (limit : Nat) (x : SymbolIndex) (es : List Event) : List Task → SymbolIndex × List Event
  | [] => (x, es)
  | t :: ts => foresee limit (foreseeTask limit x t).1 (es ++ (foreseeTask limit x t).2) ts

theorem foresee_schedules (limit : Nat) (x : SymbolIndex) (es : List Event) (uri : String)
    (generation : Nat) (as : List Ambiguity) (ts : List Task) :
    foresee limit x es ((as.map fun a => Task.schedule ⟨uri, generation, a⟩) ++ ts) =
      foresee limit x es ts := by
  induction as with
  | nil => rfl
  | cons a as ih =>
    rw [List.map_cons, List.cons_append, foresee]
    change foresee limit x (es ++ []) _ = _
    rw [List.append_nil, ih]

/-- A task that is done leaves the outlook as it was. -/
theorem foresee_perform (w : Workspace) (es : List Event) (t : Task) (ts : List Task) :
    foresee w.settings.maxReferences (w.perform t).1.index.skeleton (es ++ (w.perform t).2.2)
        ((w.perform t).2.1 ++ ts) =
      foresee w.settings.maxReferences w.index.skeleton es (t :: ts) := by
  cases t with
  | define file => rfl
  | replace uri text => exact foresee_schedules _ _ _ uri _ _ ts
  | schedule c =>
    rw [show (w.perform (.schedule c)).1.index = w.index from index_schedule _ _ _ _]
    rfl
  | discard uri =>
    rw [foresee, perform, foreseeTask]
    change foresee _ w.index.skeleton (es ++ []) _ = foresee _ (if (w.index.generation? uri).isSome = true
      then (w.index.skeleton.removeFile uri).skeleton else w.index.skeleton) (es ++ []) ts
    split
    · rw [List.cons_append, List.nil_append, foresee, foreseeTask, List.append_nil, List.append_nil]
    · rfl
  | remove uri => rfl

end Workspace

namespace Execution

def Leads (limit : Nat) (outlook : SymbolIndex × List Event) (e : Execution) : Prop :=
  e.workspace.settings.maxReferences = limit ∧ ∃ ts, e.callers = [ts] ∧
    foresee limit e.workspace.index.skeleton (e.events.filter Event.isIndexing) ts = outlook

theorem filter_perform (w : Workspace) (t : Task) :
    (w.perform t).2.2.filter Event.isIndexing = (w.perform t).2.2 := by
  cases t <;> rfl

/-- A correction leaves the skeleton and adds no indexing. -/
theorem skeleton_correct (w : Workspace) (c : Correction) (tree : Option Tree) :
    (w.correct c tree).settings = w.settings ∧
      (w.correct c tree).index.skeleton = w.index.skeleton ∧
      (w.correctionEvents c tree).filter Event.isIndexing = [] := by
  refine ⟨by rw [correct_frame], ?_⟩
  obtain ⟨uri, generation, a⟩ := c
  rcases correct_cases w uri generation a tree with
    ⟨_, hindex, hlog⟩ | ⟨_, hindex, hlog⟩ | ⟨keep, _, _, _, hindex, hlog⟩
  · rw [hindex, hlog]
    exact ⟨rfl, rfl⟩
  · rw [hindex, hlog]
    exact ⟨rfl, rfl⟩
  · rw [hindex, hlog]
    exact ⟨skeleton_retractAll _ _ _ _, rfl⟩

theorem beginCorrection_frame (w : Workspace) (n : Nat) :
    (w.beginCorrection n).settings = w.settings ∧ (w.beginCorrection n).index = w.index := by
  rw [beginCorrection]
  split
  · exact ⟨rfl, rfl⟩
  · split
    · exact ⟨rfl, rfl⟩
    · exact ⟨rfl, rfl⟩

/-- A move is a turn of a caller, or it leaves everything alone that operations lead to. -/
theorem move_cases (e : Execution) (m : Move) :
    (∃ n t ts, e.callers[n]? = some (t :: ts) ∧ e.move m = e.turn n t ts) ∨
      (e.move m).callers = e.callers ∧ (e.move m).workspace.settings = e.workspace.settings ∧
        (e.move m).workspace.index.skeleton = e.workspace.index.skeleton ∧
        (e.move m).events.filter Event.isIndexing = e.events.filter Event.isIndexing := by
  cases m with
  | call n =>
    rw [move]
    split
    · rename_i t ts hcaller
      exact .inl ⟨n, t, ts, hcaller, rfl⟩
    · exact .inr ⟨rfl, rfl, rfl, rfl⟩
  | begin n =>
    obtain ⟨hsettings, hindex⟩ := beginCorrection_frame e.workspace n
    exact .inr ⟨rfl, hsettings, congrArg SymbolIndex.skeleton hindex, rfl⟩
  | answer n tree =>
    right
    rw [move]
    split
    · exact ⟨rfl, rfl, rfl, rfl⟩
    · exact ⟨rfl, rfl, rfl, rfl⟩
  | finish n =>
    right
    rw [move]
    split
    · rename_i c tree _
      obtain ⟨hsettings, hskeleton, hlog⟩ := skeleton_correct e.workspace c tree
      refine ⟨rfl, hsettings, hskeleton, ?_⟩
      rw [List.filter_append, hlog, List.append_nil]
    · exact ⟨rfl, rfl, rfl, rfl⟩

theorem Leads.move {limit : Nat} {outlook : SymbolIndex × List Event} {e : Execution}
    (h : Leads limit outlook e) (m : Move) : Leads limit outlook (e.move m) := by
  obtain ⟨hlimit, ts, hcallers, houtlook⟩ := h
  rcases move_cases e m with ⟨n, t, rest, hcaller, hmove⟩ | ⟨hsame, hsettings, hskeleton, hevents⟩
  · obtain ⟨before, after, hsplit, hset⟩ := callers_split hcaller
    obtain ⟨rfl, rfl, rfl⟩ : before = [] ∧ after = [] ∧ ts = t :: rest := by
      rw [hcallers] at hsplit
      cases before with
      | nil =>
        cases hsplit
        exact ⟨rfl, rfl, rfl⟩
      | cons us before => simp at hsplit
    rw [hmove]
    refine ⟨(congrArg (·.maxReferences) (settings_perform e.workspace t)).trans hlimit,
      (e.workspace.perform t).2.1 ++ rest, hset _, ?_⟩
    change foresee limit (e.workspace.perform t).1.index.skeleton
      ((e.events ++ (e.workspace.perform t).2.2).filter Event.isIndexing) _ = outlook
    rw [List.filter_append, filter_perform, ← hlimit, foresee_perform, hlimit]
    exact houtlook
  · refine ⟨hsettings ▸ hlimit, ts, hsame.trans hcallers, ?_⟩
    rw [hskeleton, hevents]
    exact houtlook

theorem Reachable.leads {answers : Answers} {limit : Nat} {outlook : SymbolIndex × List Event}
    {start e : Execution} (hstart : Leads limit outlook start) (h : Reachable answers start e) :
    Leads limit outlook e := by
  induction h with
  | start => exact hstart
  | move m _ _ ih => exact ih.move m

/-- Executions of the same operations that have nothing left to do differ in references at most, and
have indexed the same. -/
theorem skeleton_unique {answers : Answers} {w : Workspace} {ops : List Operation} {e e' : Execution}
    (h : Reachable answers (ofCallers w [ops]) e) (h' : Reachable answers (ofCallers w [ops]) e')
    (hidle : e.Idle) (hidle' : e'.Idle) :
    e.workspace.index.skeleton = e'.workspace.index.skeleton ∧
      e.events.filter Event.isIndexing = e'.events.filter Event.isIndexing := by
  have hend : ∀ {outlook : SymbolIndex × List Event} {f : Execution},
      Leads w.settings.maxReferences outlook f → f.Idle →
        (f.workspace.index.skeleton, f.events.filter Event.isIndexing) = outlook := by
    rintro outlook f ⟨_, ts, hcallers, houtlook⟩ hf
    cases hf.1 ts (by rw [hcallers]; exact List.mem_cons_self)
    exact houtlook
  have hstart : Leads w.settings.maxReferences _ (ofCallers w [ops]) := ⟨rfl, _, rfl, rfl⟩
  have hsame := (hend (h.leads hstart) hidle).trans (hend (h'.leads hstart) hidle').symm
  exact ⟨congrArg Prod.fst hsame, congrArg Prod.snd hsame⟩

/-! ### Every file gets indexed -/

/-- Every definition that is published on its own comes before the indexing of its file. -/
def Followed : List Task → Prop
  | [] => True
  | t :: ts => (∀ file, t = .define file → ∃ text, .replace file.1 text ∈ ts) ∧ Followed ts

/-- Every file has been indexed in its current generation, or will be. -/
def Promised (e : Execution) : Prop :=
  (∀ ts ∈ e.callers, Followed ts) ∧
    ∀ uri generation, e.workspace.index.generation? uri = some generation →
      (∃ x, .indexed uri generation x ∈ e.events) ∨
        ∃ ts ∈ e.callers, ∃ text, .replace uri text ∈ ts

/-- Tasks without definitions may stand in front. -/
theorem Followed.prepend {ts us : List Task} (h : Followed ts) (hus : ∀ file, .define file ∉ us) :
    Followed (us ++ ts) := by
  induction us with
  | nil => exact h
  | cons u us ih =>
    refine ⟨?_, ih fun file hfile => hus file (List.mem_cons_of_mem u hfile)⟩
    rintro file rfl
    exact absurd List.mem_cons_self (hus file)

theorem Followed.append {ts us : List Task} (h : Followed ts) (hus : Followed us) :
    Followed (ts ++ us) := by
  induction ts with
  | nil => exact hus
  | cons t ts ih =>
    refine ⟨?_, ih h.2⟩
    intro file hfile
    obtain ⟨text, htext⟩ := h.1 file hfile
    exact ⟨text, List.mem_append_left _ htext⟩

theorem Followed.define {ts : List Task} (h : Followed ts) {kept : List (String × List Char)}
    (hkept : ∀ file ∈ kept, ∃ text, .replace file.1 text ∈ ts) : Followed (kept.map .define ++ ts) := by
  induction kept with
  | nil => exact h
  | cons file kept ih =>
    refine ⟨?_, ih fun file hfile => hkept file (List.mem_cons_of_mem _ hfile)⟩
    rintro file' heq
    cases heq
    obtain ⟨text, htext⟩ := hkept file List.mem_cons_self
    exact ⟨text, List.mem_append_right _ htext⟩

theorem define_not_mem_perform (w : Workspace) (t : Task) (file : String × List Char) :
    .define file ∉ (w.perform t).2.1 := by
  cases t with
  | replace uri text => simp [perform]
  | discard uri =>
    rw [perform]
    simp only
    split <;> simp
  | define file' => exact List.not_mem_nil
  | schedule c => exact List.not_mem_nil
  | remove uri => exact List.not_mem_nil

theorem Promised.turn {e : Execution} (h : Promised e) {n : Nat} {t : Task} {ts : List Task}
    (hcaller : e.callers[n]? = some (t :: ts)) : Promised (e.turn n t ts) := by
  obtain ⟨before, after, hsplit, hset⟩ := callers_split hcaller
  obtain ⟨hfollowed, hlive⟩ := h
  have hcallers : (e.turn n t ts).callers = before ++ ((e.workspace.perform t).2.1 ++ ts) :: after :=
    hset _
  have hthis : Followed (t :: ts) := hfollowed _ (by rw [hsplit]; simp)
  refine ⟨?_, ?_⟩
  · intro us hus
    rw [hcallers] at hus
    rcases List.mem_append.mp hus with hus | hus
    · exact hfollowed us (by rw [hsplit]; exact List.mem_append_left _ hus)
    · rcases List.mem_cons.mp hus with rfl | hus
      · exact hthis.2.prepend (define_not_mem_perform e.workspace t)
      · exact hfollowed us (by
          rw [hsplit]
          exact List.mem_append_right _ (List.mem_cons_of_mem _ hus))
  intro uri generation hnew
  have hnext : ∀ {text}, .replace uri text ∈ ts →
      ∃ us ∈ (e.turn n t ts).callers, ∃ text, .replace uri text ∈ us := by
    intro text htext
    rw [hcallers]
    exact ⟨_, List.mem_append_right _ List.mem_cons_self, text, List.mem_append_right _ htext⟩
  -- a file that the task does not index is still indexed or still waits for it
  have hkeep : e.workspace.index.generation? uri = some generation → (∀ text, t ≠ .replace uri text) →
      (∃ x, .indexed uri generation x ∈ (e.turn n t ts).events) ∨
        ∃ us ∈ (e.turn n t ts).callers, ∃ text, .replace uri text ∈ us := by
    intro hold hother
    rcases hlive uri generation hold with ⟨x, hx⟩ | ⟨us, hus, text, htext⟩
    · exact .inl ⟨x, List.mem_append_left _ hx⟩
    · right
      rw [hsplit, List.mem_append, List.mem_cons] at hus
      rcases hus with hus | rfl | hus
      · exact ⟨us, by rw [hcallers]; exact List.mem_append_left _ hus, text, htext⟩
      · exact hnext (List.mem_of_ne_of_mem (hother text).symm htext)
      · refine ⟨us, ?_, text, htext⟩
        rw [hcallers]
        exact List.mem_append_right _ (List.mem_cons_of_mem _ hus)
  change (e.workspace.perform t).1.index.generation? uri = some generation at hnew
  cases t with
  | define file =>
    rw [perform, Workspace.publishDefinitions, generation?_publishDefinitions] at hnew
    split at hnew
    · rename_i huri
      obtain ⟨text, htext⟩ := hthis.1 file rfl
      exact .inr (hnext (huri ▸ htext))
    · exact hkeep hnew (by simp)
  | replace u text =>
    obtain ⟨p, index, hpublished, hperform⟩ := perform_replace e.workspace u text
    rw [hperform, (replaceFile_generation hpublished).2.2] at hnew
    split at hnew
    · rename_i huri
      cases huri
      cases hnew
      have hevents : (e.turn n (.replace uri text) ts).events =
          e.events ++ [.indexed uri p.generation p.extracted] := by
        rw [Execution.turn, hperform]
      exact .inl ⟨p.extracted, by rw [hevents]; simp⟩
    · rename_i huri
      refine hkeep hnew fun text' heq => huri ?_
      cases heq
      rfl
  | schedule c =>
    have hindex : (e.workspace.perform (.schedule c)).1.index = e.workspace.index :=
      index_schedule _ _ _ _
    exact hkeep (hindex ▸ hnew) (by simp)
  | discard u => exact hkeep hnew (by simp)
  | remove u =>
    rw [perform, deindexFile, generation?_removeFile] at hnew
    split at hnew
    · cases hnew
    · exact hkeep hnew (by simp)

theorem Promised.move {e : Execution} (h : Promised e) (m : Move) : Promised (e.move m) := by
  rcases move_cases e m with ⟨n, t, ts, hcaller, hmove⟩ | ⟨hsame, _, hskeleton, hevents⟩
  · rw [hmove]
    exact h.turn hcaller
  · rw [Promised, hsame]
    refine ⟨h.1, fun uri generation hlive => ?_⟩
    have hbefore : e.workspace.index.generation? uri = some generation :=
      (congrArg (·.generation? uri) hskeleton).symm.trans hlive
    refine (h.2 uri generation hbefore).imp_left fun ⟨x, hx⟩ => ⟨x, ?_⟩
    have hindexing : .indexed uri generation x ∈ (e.move m).events.filter Event.isIndexing := by
      rw [hevents]
      exact List.mem_filter.mpr ⟨hx, rfl⟩
    exact List.mem_of_mem_filter hindexing

theorem eligible_mem {w : Workspace} {files kept : List (String × List Char)}
    (h : w.eligible files = .ok kept) {file : String × List Char} (hfile : file ∈ kept) :
    file ∈ files ∧ w.skipReason? file.1 (Text.size file.2) = .ok none := by
  induction files generalizing kept with
  | nil =>
    cases h
    cases hfile
  | cons first rest ih =>
    obtain ⟨uri, text⟩ := first
    rw [eligible] at h
    split at h
    · cases h
    · cases h
    · rename_i others hskip hrest
      cases h
      rcases List.mem_cons.mp hfile with rfl | hfile
      · exact ⟨List.mem_cons_self, hskip⟩
      · exact ⟨List.mem_cons_of_mem _ (ih hrest hfile).1, (ih hrest hfile).2⟩
    · rename_i others hskip hrest
      cases h
      exact ⟨List.mem_cons_of_mem _ (ih hrest hfile).1, (ih hrest hfile).2⟩

theorem define_not_mem_fileTasks (w : Workspace) (uri : String) (text : List Char)
    (file : String × List Char) : .define file ∉ w.fileTasks uri text := by
  rw [fileTasks]
  split <;> simp

theorem followed_tasks (w : Workspace) (op : Operation) : Followed (w.tasks op) := by
  have hplain : ∀ {ts : List Task}, (∀ file, .define file ∉ ts) → Followed ts := by
    intro ts hts
    have hnil : Followed (ts ++ []) := Followed.prepend trivial hts
    rwa [List.append_nil] at hnil
  cases op with
  | indexFile uri text => exact hplain (define_not_mem_fileTasks w uri text)
  | deindexFile uri => exact hplain (by simp [tasks])
  | indexBatch files =>
    rw [tasks]
    cases hkept : w.eligible files with
    | error fault => trivial
    | ok kept =>
      apply Followed.define
      · apply hplain
        intro file hfile
        obtain ⟨f, _, hfile⟩ := List.mem_flatMap.mp hfile
        exact define_not_mem_fileTasks w f.1 f.2 file hfile
      · intro file hfile
        obtain ⟨hmem, hskip⟩ := eligible_mem hkept hfile
        refine ⟨file.2, List.mem_flatMap.mpr ⟨file, hmem, ?_⟩⟩
        rw [fileTasks, hskip]
        exact List.mem_cons_self

theorem promised_ofCallers {settings : Settings} {w : Workspace} (h : ofSettings settings = .ok w)
    (callers : List (List Operation)) : Promised (ofCallers w callers) := by
  refine ⟨?_, ?_⟩
  · intro ts hts
    obtain ⟨ops, hops, rfl⟩ := List.mem_map.mp hts
    clear hts hops
    induction ops with
    | nil => trivial
    | cons op ops ih => exact (followed_tasks w op).append ih
  · intro uri generation hlive
    have hindex : (ofCallers w callers).workspace.index = {} :=
      congrArg Record.index (record_ofCallers h callers).2.2
    rw [hindex] at hlive
    cases hlive

theorem Reachable.promised {answers : Answers} {start e : Execution} (hstart : Promised start)
    (h : Reachable answers start e) : Promised e := by
  induction h with
  | start => exact hstart
  | move m _ _ ih => exact ih.move m

end Execution

end SqlAtlas
