import SqlAtlas.Proofs.Index.Operation
import SqlAtlas.Proofs.Workspace.Execution

/-!
# What moves do

Seen from the index, an execution is its index, the corrections that have not ended, wherever they
wait, and what has been written down. A move changes this in one of seven ways, and everything that
holds in all executions is read off these seven.
-/

namespace SqlAtlas

set_option autoImplicit false

open Workspace

def Workspace.Task.correction? : Task → Option Correction
  | schedule c => some c
  | _ => none

def Workspace.Event.applied? : Event → Option (Correction × Name)
  | applied c keep => some (c, keep)
  | indexed .. => none

structure Record where
  index : SymbolIndex
  /-- The corrections that have not ended. -/
  jobs : List Correction
  events : List Event

/-- The ways in which a move changes a record, where `decides` says which decisions an ambiguity
may get. The order of the corrections does not matter. -/
inductive Change (decides : Ambiguity → Decision → Prop) (r : Record) : Record → Prop where
  | arrange {jobs : List Correction} (hjobs : r.jobs.Perm jobs) :
    Change decides r ⟨r.index, jobs, r.events⟩
  | define {jobs : List Correction} (hjobs : r.jobs.Perm jobs) (uri : String)
      (symbols : List SymbolDef) :
    Change decides r ⟨(r.index.publishDefinitions uri symbols).2, jobs, r.events⟩
  | remove {jobs : List Correction} (hjobs : r.jobs.Perm jobs) (uri : String) :
    Change decides r ⟨r.index.removeFile uri, jobs, r.events⟩
  | replace {jobs : List Correction} (uri : String) (text : List Char) (symbols : List SymbolDef)
      (limit : Nat) {p : PublishedFile} {index : SymbolIndex}
      (hpublished : r.index.replaceFile uri text symbols (.ofText text) limit = (p, index))
      (hjobs : (p.extracted.ambiguities.map (Correction.mk uri p.generation) ++ r.jobs).Perm jobs) :
    Change decides r ⟨index, jobs, r.events ++ [.indexed uri p.generation p.extracted]⟩
  | expire {jobs : List Correction} {c : Correction} (hjobs : r.jobs.Perm (c :: jobs))
      (hstale : r.index.generation? c.uri ≠ some c.generation) :
    Change decides r ⟨r.index, jobs, r.events⟩
  | leave {jobs : List Correction} {c : Correction} {d : Decision} (hjobs : r.jobs.Perm (c :: jobs))
      (hd : decides c.ambiguity d) (hno : ∀ keep ∈ c.ambiguity.provisional, d ≠ .accepted keep) :
    Change decides r ⟨r.index, jobs, r.events⟩
  | apply {jobs : List Correction} {c : Correction} {keep : Name} (hjobs : r.jobs.Perm (c :: jobs))
      (hcurrent : r.index.generation? c.uri = some c.generation)
      (hd : decides c.ambiguity (.accepted keep)) (hkeep : keep ∈ c.ambiguity.provisional) :
    Change decides r ⟨SymbolIndex.retractAll c.uri c.ambiguity.place
      (SymbolIndex.retractedNames c.ambiguity.column keep c.ambiguity.provisional) r.index, jobs,
      r.events ++ [.applied c keep]⟩

namespace Execution

def underway (e : Execution) : List Correction :=
  e.workspace.scheduled ++ (e.workspace.begun ++ e.answered.map (·.1))

/-- The corrections that have not ended, those that callers are about to schedule among them. -/
def jobs (e : Execution) : List Correction :=
  e.callers.flatten.filterMap Task.correction? ++ e.underway

def record (e : Execution) : Record := ⟨e.workspace.index, e.jobs, e.events⟩

/-- The decisions that an ambiguity may get. Without workers there is no tree to decide by. -/
def Decides (answers : Answers) (s : Settings) (a : Ambiguity) (d : Decision) : Prop :=
  if 0 < s.parse.poolSize then
    ∃ tree, answers s.parse.dialect a.statement tree ∧
      disambiguate tree a.column a.aliases a.candidates = d
  else d = .inconclusive

/-- Corrections wait only where there are workers, and get trees that their statements may get. -/
structure Sincere (answers : Answers) (s : Settings) (e : Execution) : Prop where
  settings : e.workspace.settings = s
  scheduled : ∀ c ∈ e.workspace.scheduled, 0 < s.parse.poolSize
  begun : ∀ c ∈ e.workspace.begun, 0 < s.parse.poolSize
  answered : ∀ p ∈ e.answered,
    0 < s.parse.poolSize ∧ answers s.parse.dialect p.1.ambiguity.statement p.2

theorem callers_split {callers : List (List Task)} {n : Nat} {ts : List Task}
    (h : callers[n]? = some ts) : ∃ before after, callers = before ++ ts :: after ∧
      ∀ us, callers.set n us = before ++ us :: after := by
  induction callers generalizing n with
  | nil => cases h
  | cons us callers ih =>
    cases n with
    | zero =>
      cases h
      exact ⟨[], callers, rfl, fun _ => rfl⟩
    | succ n =>
      obtain ⟨before, after, hsplit, hset⟩ := ih h
      exact ⟨us :: before, after, by rw [hsplit]; rfl, fun vs => by rw [List.set_cons_succ, hset]; rfl⟩

theorem perm_eraseIdx {α : Type} {l : List α} {n : Nat} {a : α} (h : l[n]? = some a) :
    l.Perm (a :: l.eraseIdx n) := by
  obtain ⟨hn, rfl⟩ := List.getElem?_eq_some_iff.mp h
  exact (List.getElem_cons_eraseIdx_perm hn).symm

/-! ### Corrections -/

theorem correct_frame (w : Workspace) (c : Correction) (tree : Option Tree) :
    w.correct c tree =
      { w with index := (w.correct c tree).index, counts := (w.correct c tree).counts } := by
  rw [correct]
  split
  · split <;> rfl
  · rfl
  · rfl

theorem correct_cases (w : Workspace) (uri : String) (generation : Nat) (a : Ambiguity)
    (tree : Option Tree) :
    (w.index.generation? uri ≠ some generation ∧
      (w.correct ⟨uri, generation, a⟩ tree).index = w.index ∧
      w.correctionEvents ⟨uri, generation, a⟩ tree = []) ∨
    ((∀ keep ∈ a.provisional,
        disambiguate tree a.column a.aliases a.candidates ≠ .accepted keep) ∧
      (w.correct ⟨uri, generation, a⟩ tree).index = w.index ∧
      w.correctionEvents ⟨uri, generation, a⟩ tree = []) ∨
    ∃ keep ∈ a.provisional, disambiguate tree a.column a.aliases a.candidates = .accepted keep ∧
      w.index.generation? uri = some generation ∧
      (w.correct ⟨uri, generation, a⟩ tree).index = SymbolIndex.retractAll uri a.place
        (SymbolIndex.retractedNames a.column keep a.provisional) w.index ∧
      w.correctionEvents ⟨uri, generation, a⟩ tree = [.applied ⟨uri, generation, a⟩ keep] := by
  rw [correct, correctionEvents]
  cases hd : disambiguate tree a.column a.aliases a.candidates with
  | rejected table => exact .inr (.inl ⟨nofun, by simp⟩)
  | inconclusive => exact .inr (.inl ⟨nofun, by simp⟩)
  | accepted keep =>
    simp only
    rcases SymbolIndex.applyCorrection_cases w.index uri generation a.place a.column keep
      a.provisional with ⟨hstale, heq⟩ | ⟨_, hout, heq⟩ | ⟨hcurrent, hkeep, n, heq⟩
    · exact .inl ⟨hstale, by rw [heq], by rw [heq]⟩
    · refine .inr (.inl ⟨?_, by rw [heq], by rw [heq]⟩)
      intro keep' hkeep' hsame
      cases hsame
      exact hout hkeep'
    · exact .inr (.inr ⟨keep, hkeep, rfl, hcurrent, by rw [heq], by rw [heq]⟩)

/-! ### Turns -/

section

variable {answers : Answers} {s : Settings} {e : Execution}

/-- A turn of a caller adds the corrections that it brings up, and leaves the others. -/
theorem jobs_turn {n : Nat} {t : Task} {ts : List Task} (h : e.callers[n]? = some (t :: ts)) :
    ∃ rest, e.jobs.Perm ([t].filterMap Task.correction? ++ (rest ++ e.underway)) ∧
      (e.turn n t ts).jobs.Perm ((e.workspace.perform t).2.1.filterMap Task.correction? ++
        (rest ++ (e.turn n t ts).underway)) := by
  obtain ⟨before, after, hsplit, hset⟩ := callers_split h
  have hperm : ∀ us : List Task,
      ((before ++ (us ++ ts) :: after).flatten.filterMap Task.correction?).Perm
        (us.filterMap Task.correction? ++ (before ++ ts :: after).flatten.filterMap Task.correction?) := by
    intro us
    rw [← List.filterMap_append]
    apply List.Perm.filterMap
    rw [List.flatten_append, List.flatten_cons, List.append_assoc, List.flatten_append,
      List.flatten_cons]
    exact List.perm_append_comm_assoc _ _ _
  refine ⟨(before ++ ts :: after).flatten.filterMap Task.correction?, ?_, ?_⟩
  · rw [jobs, hsplit, ← List.append_assoc]
    exact (hperm [t]).append_right _
  · have hcallers : (e.turn n t ts).callers = before ++ ((e.workspace.perform t).2.1 ++ ts) :: after :=
      hset _
    rw [jobs, hcallers, ← List.append_assoc]
    exact (hperm _).append_right _

theorem perform_replace (w : Workspace) (uri : String) (text : List Char) :
    ∃ p index, w.index.replaceFile uri text (definitions uri text) (.ofText text)
      w.settings.maxReferences = (p, index) ∧ w.perform (.replace uri text) =
        ({ w with index }, p.extracted.ambiguities.map fun a => .schedule ⟨uri, p.generation, a⟩,
          [.indexed uri p.generation p.extracted]) :=
  ⟨_, _, rfl, rfl⟩

theorem correction?_schedule (uri : String) (generation : Nat) (as : List Ambiguity) :
    (as.map fun a => Task.schedule ⟨uri, generation, a⟩).filterMap Task.correction? =
      as.map (Correction.mk uri generation) := by
  induction as with
  | nil => rfl
  | cons a as ih =>
    rw [List.map_cons, List.map_cons, ← ih]
    rfl

/-- A turn of a caller changes the record as its task does. -/
theorem change_turn (h : Sincere answers s e) {n : Nat} {t : Task} {ts : List Task}
    (hcaller : e.callers[n]? = some (t :: ts)) :
    Change (Decides answers s) e.record (e.turn n t ts).record := by
  obtain ⟨rest, hjobs, hjobs'⟩ := jobs_turn hcaller
  have hsame : Execution.record (e.turn n t ts) = ⟨(e.workspace.perform t).1.index,
    (e.turn n t ts).jobs, e.events ++ (e.workspace.perform t).2.2⟩ := rfl
  rw [hsame]
  cases t with
  | define file =>
    rw [show (e.workspace.perform (.define file)).2.2 = [] from rfl, List.append_nil]
    exact .define (hjobs.trans hjobs'.symm) file.1 (definitions file.1 file.2)
  | replace uri text =>
    obtain ⟨p, index, hpublished, hperform⟩ := perform_replace e.workspace uri text
    rw [hperform, correction?_schedule] at hjobs'
    rw [hperform]
    exact .replace uri text (definitions uri text) e.workspace.settings.maxReferences hpublished
      ((hjobs.append_left _).trans hjobs'.symm)
  | schedule c =>
    rw [show (e.workspace.perform (.schedule c)).2.2 = [] from rfl, List.append_nil]
    rw [show (e.workspace.perform (.schedule c)).1.index = e.workspace.index from
      index_schedule _ _ _ _]
    by_cases hworkers : 0 < s.parse.poolSize
    · have hunderway : (e.turn n (.schedule c) ts).underway =
          e.workspace.scheduled ++ [c] ++ (e.workspace.begun ++ e.answered.map (·.1)) := by
        rw [underway, turn, perform, schedule, if_pos (by simpa [corrects, h.settings] using hworkers)]
        rfl
      refine .arrange (hjobs.trans (List.Perm.trans ?_ hjobs'.symm))
      rw [hunderway, underway, List.append_assoc]
      change ([c] ++ _).Perm (rest ++ _)
      exact (List.perm_append_comm_assoc _ _ _).trans
        ((List.perm_append_comm_assoc _ _ _).append_left rest)
    · have hunderway : (e.turn n (.schedule c) ts).underway = e.underway := by
        rw [underway, turn, perform, schedule, if_neg (by simpa [corrects, h.settings] using hworkers)]
        rfl
      rw [hunderway] at hjobs'
      refine .leave (c := c) (d := .inconclusive) (hjobs.trans (hjobs'.symm.cons c)) ?_ (by simp)
      rw [Decides, if_neg hworkers]
  | discard uri =>
    rw [show (e.workspace.perform (.discard uri)).2.2 = [] from rfl, List.append_nil]
    refine .arrange (hjobs.trans (List.Perm.trans (List.Perm.of_eq ?_) hjobs'.symm))
    rw [perform]
    split <;> rfl
  | remove uri =>
    rw [show (e.workspace.perform (.remove uri)).2.2 = [] from rfl, List.append_nil]
    exact .remove (hjobs.trans hjobs'.symm) uri

theorem change_begin (n : Nat) : Change (Decides answers s) e.record (e.move (.begin n)).record := by
  rw [move, beginCorrection]
  split
  · exact .arrange (List.Perm.refl _)
  · rename_i c hc
    simp only
    split
    · refine .arrange (List.Perm.append_left _ ?_)
      change (e.workspace.scheduled ++ (e.workspace.begun ++ e.answered.map (·.1))).Perm
        (e.workspace.scheduled.eraseIdx n ++ (e.workspace.begun ++ [c] ++ e.answered.map (·.1)))
      rw [List.append_assoc]
      exact ((perm_eraseIdx hc).append_right _).trans ((List.perm_middle.symm.trans
        ((List.perm_middle.symm).append_left _)))
    · rename_i hstale
      refine .expire (c := c) ?_ hstale
      exact (((perm_eraseIdx hc).append_right _).append_left _).trans List.perm_middle

theorem change_answer (n : Nat) (tree : Option Tree) :
    Change (Decides answers s) e.record (e.move (.answer n tree)).record := by
  rw [move]
  split
  · rename_i c hc
    refine .arrange (List.Perm.append_left _ (List.Perm.append_left _ ?_))
    change (e.workspace.begun ++ e.answered.map (·.1)).Perm
      (e.workspace.begun.eraseIdx n ++ (e.answered ++ [(c, tree)]).map (·.1))
    rw [List.map_append]
    exact ((perm_eraseIdx hc).append_right _).trans
      (List.perm_middle.symm.trans ((List.perm_append_singleton c _).symm.append_left _))
  · exact .arrange (List.Perm.refl _)

theorem change_finish (h : Sincere answers s e) (n : Nat) :
    Change (Decides answers s) e.record (e.move (.finish n)).record := by
  rw [move]
  split
  · rename_i c tree hc
    obtain ⟨hworkers, htree⟩ := h.answered (c, tree) (List.mem_of_getElem? hc)
    generalize hnext : Execution.mk (e.workspace.correct c tree) _ _ _ = next
    have hdecides : Decides answers s c.ambiguity
        (disambiguate tree c.ambiguity.column c.ambiguity.aliases c.ambiguity.candidates) := by
      rw [Decides, if_pos hworkers]
      exact ⟨tree, htree, rfl⟩
    have hjobs : e.jobs.Perm (c :: next.jobs) := by
      have hunderway : e.underway.Perm (c :: next.underway) := by
        rw [← hnext, underway, underway, correct_frame]
        refine (((perm_eraseIdx hc).map (·.1)).append_left _ |>.append_left _).trans ?_
        exact (List.perm_middle.append_left _).trans List.perm_middle
      refine (hunderway.append_left _).trans (List.perm_middle.trans ?_)
      rw [← hnext]
      exact List.Perm.refl _
    have hrecord : next.record = ⟨(e.workspace.correct c tree).index, next.jobs,
        e.events ++ e.workspace.correctionEvents c tree⟩ := by
      rw [← hnext]
      rfl
    rw [hrecord]
    obtain ⟨uri, generation, a⟩ := c
    rcases correct_cases e.workspace uri generation a tree with
      ⟨hstale, hindex, hlog⟩ | ⟨hno, hindex, hlog⟩ | ⟨keep, hkeep, hd, hcurrent, hindex, hlog⟩
    · rw [hindex, hlog, List.append_nil]
      exact .expire hjobs hstale
    · rw [hindex, hlog, List.append_nil]
      exact .leave hjobs hdecides hno
    · rw [hindex, hlog]
      exact Change.apply (r := e.record) hjobs hcurrent (hd ▸ hdecides) hkeep
  · exact .arrange (List.Perm.refl _)

theorem change_move (h : Sincere answers s e) (m : Move) :
    Change (Decides answers s) e.record (e.move m).record := by
  cases m with
  | call n =>
    rw [move]
    split
    · rename_i t ts hcaller
      exact change_turn h hcaller
    · exact .arrange (List.Perm.refl _)
  | begin n => exact change_begin n
  | answer n tree => exact change_answer n tree
  | finish n => exact change_finish h n

theorem Sincere.turn (h : Sincere answers s e) (n : Nat) (t : Task) (ts : List Task) :
    Sincere answers s (e.turn n t ts) := by
  cases t with
  | schedule c =>
    by_cases hworkers : 0 < s.parse.poolSize
    · exact ⟨(settings_schedule _ _ _ _).trans h.settings, fun _ _ => hworkers, fun _ _ => hworkers,
        h.answered⟩
    · have hsame : e.workspace.schedule c.uri c.generation [c.ambiguity] = e.workspace := by
        rw [schedule, if_neg (by simpa [corrects, h.settings] using hworkers)]
      rw [Execution.turn, perform, hsame]
      exact ⟨h.settings, h.scheduled, h.begun, h.answered⟩
  | define file => exact ⟨h.settings, h.scheduled, h.begun, h.answered⟩
  | replace uri text => exact ⟨h.settings, h.scheduled, h.begun, h.answered⟩
  | discard uri => exact ⟨h.settings, h.scheduled, h.begun, h.answered⟩
  | remove uri => exact ⟨h.settings, h.scheduled, h.begun, h.answered⟩

theorem Sincere.move (h : Sincere answers s e) (m : Move) (hm : m.Faithful answers e) :
    Sincere answers s (e.move m) := by
  cases m with
  | call n =>
    rw [Execution.move]
    split
    · exact h.turn n _ _
    · exact h
  | begin n =>
    rw [Execution.move, beginCorrection]
    split
    · exact h
    · rename_i c hc
      have hworkers := h.scheduled c (List.mem_of_getElem? hc)
      simp only
      split
      · exact ⟨h.settings, fun _ _ => hworkers, fun _ _ => hworkers, h.answered⟩
      · exact ⟨h.settings, fun _ _ => hworkers, h.begun, h.answered⟩
  | answer n tree =>
    rw [Execution.move]
    split
    · rename_i c hc
      have hworkers := h.begun c (List.mem_of_getElem? hc)
      refine ⟨h.settings, h.scheduled, fun _ _ => hworkers, ?_⟩
      intro p hp
      rcases List.mem_append.mp hp with hp | hp
      · exact h.answered p hp
      · rw [List.mem_singleton.mp hp, ← h.settings]
        exact ⟨h.settings ▸ hworkers, hm c hc⟩
    · exact h
  | finish n =>
    rw [Execution.move]
    split
    · rw [correct_frame]
      exact ⟨h.settings, h.scheduled, h.begun,
        fun p hp => h.answered p (List.mem_of_mem_eraseIdx hp)⟩
    · exact h

/-- Whatever the record of the first execution has, and every change keeps, the records of all
executions have. -/
theorem Reachable.record_induction {start : Execution} {P : Record → Prop}
    (hstart : Sincere answers s start) (hfirst : P start.record)
    (hchange : ∀ {r r'}, Change (Decides answers s) r r' → P r → P r')
    (h : Reachable answers start e) : P e.record := by
  have hboth : Sincere answers s e ∧ P e.record := by
    induction h with
    | start => exact ⟨hstart, hfirst⟩
    | move m _ hm ih => exact ⟨ih.1.move m hm, hchange (change_move ih.1 m) ih.2⟩
  exact hboth.2

end

/-! ### Where callers begin -/

theorem correction?_fileTasks {w : Workspace} {uri : String} {text : List Char} {t : Task}
    (h : t ∈ w.fileTasks uri text) : t.correction? = none := by
  rw [fileTasks] at h
  split at h
  · cases h
  · cases List.mem_singleton.mp h
    rfl
  · cases List.mem_singleton.mp h
    rfl

theorem correction?_tasks {w : Workspace} {op : Operation} {t : Task} (h : t ∈ w.tasks op) :
    t.correction? = none := by
  cases op with
  | indexFile uri text => exact correction?_fileTasks h
  | indexBatch files =>
    rw [tasks] at h
    split at h
    · cases h
    · rcases List.mem_append.mp h with h | h
      · obtain ⟨file, _, rfl⟩ := List.mem_map.mp h
        rfl
      · obtain ⟨file, _, h⟩ := List.mem_flatMap.mp h
        exact correction?_fileTasks h
  | deindexFile uri =>
    cases List.mem_singleton.mp h
    rfl

theorem record_ofCallers {settings : Settings} {w : Workspace} (h : ofSettings settings = .ok w)
    (callers : List (List Operation)) :
    w.settings = settings ∧ (ofCallers w callers).underway = [] ∧
      (ofCallers w callers).record = ⟨{}, [], []⟩ := by
  rw [ofSettings] at h
  cases hglobs : settings.validate with
  | error fault => rw [hglobs] at h; cases h
  | ok globs =>
    rw [hglobs] at h
    cases h
    refine ⟨rfl, rfl, ?_⟩
    have hjobs : (ofCallers { settings, globs } callers).callers.flatten.filterMap
        Task.correction? = [] := by
      rw [List.filterMap_eq_nil_iff]
      intro t ht
      obtain ⟨ts, hts, ht⟩ := List.mem_flatten.mp ht
      obtain ⟨ops, _, rfl⟩ := List.mem_map.mp hts
      obtain ⟨op, _, ht⟩ := List.mem_flatMap.mp ht
      exact correction?_tasks ht
    rw [record, jobs, hjobs]
    rfl

theorem sincere_ofCallers (answers : Answers) {settings : Settings} {w : Workspace}
    (h : ofSettings settings = .ok w) (callers : List (List Operation)) :
    Sincere answers settings (ofCallers w callers) := by
  obtain ⟨hsettings, hunderway, _⟩ := record_ofCallers h callers
  rw [underway, List.append_eq_nil_iff, List.append_eq_nil_iff] at hunderway
  obtain ⟨hscheduled, hbegun, _⟩ := hunderway
  exact ⟨hsettings, by simp [hscheduled], by simp [hbegun], by simp [ofCallers]⟩

end Execution

end SqlAtlas
