import SqlAtlas.Proofs.Pool.Execution
import SqlAtlas.Proofs.Workspace.Record

/-!
# A workspace with everything around it

Callers index and remove files, corrections call the pool and end, workers crash and are replaced,
the pool is closed, and somebody waits for the corrections: all of them take turns in any order.

A caller that has published a file schedules its corrections one by one, each in three turns: it
counts the correction as scheduled, raises the pending count, and spawns the correction. It says that
the file is indexed when all are spawned. A correction takes its references out, adds to the counter
of how it has ended, and lowers the pending count, each in a turn of its own. Whoever waits for the
corrections does so until a moment that the clock can tell.
-/

namespace SqlAtlas

set_option autoImplicit false

open Workspace

/-! ### Corrections in parts -/

inductive Ending where
  | applied
  | stale
  | rejected
  | inconclusive
deriving DecidableEq

def CorrectionCounts.add (counts : CorrectionCounts) : Ending → CorrectionCounts
  | .applied => { counts with applied := counts.applied + 1 }
  | .stale => { counts with stale := counts.stale + 1 }
  | .rejected => { counts with rejected := counts.rejected + 1 }
  | .inconclusive => { counts with inconclusive := counts.inconclusive + 1 }

namespace Workspace

def count (w : Workspace) (ending : Ending) : Workspace := { w with counts := w.counts.add ending }

/-- What a correction with the tree of its statement makes of the index, and how it ends. -/
def settle (w : Workspace) (c : Correction) (tree : Option Tree) : Ending × SymbolIndex :=
  let a := c.ambiguity
  match disambiguate tree a.column a.aliases a.candidates with
  | .accepted keep =>
    match w.index.applyCorrection c.uri c.generation a.place a.column keep a.provisional with
    | (.applied _, index) => (.applied, index)
    | (.stale, index) => (.stale, index)
    | (.unmatched, index) => (.rejected, index)
  | .rejected _ => (.rejected, w.index)
  | .inconclusive => (.inconclusive, w.index)

theorem correct_eq (w : Workspace) (c : Correction) (tree : Option Tree) :
    w.correct c tree = { w with index := (w.settle c tree).2 }.count (w.settle c tree).1 := by
  simp only [correct, settle]
  cases disambiguate tree c.ambiguity.column c.ambiguity.aliases c.ambiguity.candidates with
  | accepted keep =>
    dsimp only
    generalize w.index.applyCorrection _ _ _ _ _ _ = applied
    obtain ⟨outcome, index⟩ := applied
    cases outcome <;> rfl
  | rejected owner => rfl
  | inconclusive => rfl

def take (w : Workspace) (n : Nat) : Workspace := { w with scheduled := w.scheduled.eraseIdx n }

theorem beginCorrection_eq {w : Workspace} {n : Nat} {c : Correction}
    (hc : w.scheduled[n]? = some c) :
    w.beginCorrection n =
      if w.index.generation? c.uri = some c.generation then
        { w.take n with begun := w.begun ++ [c] }
      else (w.take n).count .stale := by
  rw [beginCorrection, hc]
  rfl

def countScheduled (w : Workspace) : Workspace :=
  { w with counts := { w.counts with scheduled := w.counts.scheduled + 1 } }

def spawn (w : Workspace) (c : Correction) : Workspace := { w with scheduled := w.scheduled ++ [c] }

theorem schedule_singleton (w : Workspace) (c : Correction) :
    w.schedule c.uri c.generation [c.ambiguity] =
      if w.corrects then w.countScheduled.spawn c else w := by
  rw [schedule]
  rfl

theorem corrects_congr {w w' : Workspace} (h : w'.settings = w.settings) : w'.corrects = w.corrects := by
  rw [corrects, h, corrects]

end Workspace

/-! ### Callers -/

inductive Scheduling where
  /-- Between two corrections. -/
  | between
  /-- Counted as scheduled, and not yet pending. -/
  | counted (c : Correction)
  /-- In the pending count, and not yet spawned. -/
  | pending (c : Correction)

structure Handover where
  file : IndexedFile
  stage : Scheduling := .between
  left : List Correction
  fits : left.length ≤ file.ambiguities

theorem Workspace.length_handover (w : Workspace) (uri : String) (text : List Char) :
    ((w.perform (.replace uri text)).2.1.filterMap Task.correction?).length =
      (w.publish uri text).1.ambiguities := by
  obtain ⟨p, index, hpublished, hperform⟩ := Execution.perform_replace w uri text
  rw [hperform, Execution.correction?_schedule, List.length_map, publish, hpublished]

def Workspace.handover (w : Workspace) (uri : String) (text : List Char) : Handover where
  file := (w.publish uri text).1
  left := (w.perform (.replace uri text)).2.1.filterMap Task.correction?
  fits := Nat.le_of_eq (w.length_handover uri text)

structure Caller where
  tasks : List Task
  handover : Option Handover := none

def Workspace.next (w : Workspace) : Task → List Task → Caller
  | .replace uri text, ts => ⟨ts, some (w.handover uri text)⟩
  | t, ts => ⟨(w.perform t).2.1 ++ ts, none⟩

namespace Caller

/-- The number of corrections that a caller has counted for a file of which it has yet to say that it
is indexed. -/
def handed (c : Caller) : Nat :=
  match c.handover with
  | none => 0
  | some h => h.file.ambiguities - h.left.length

/-- The correction that a caller has counted and not yet made pending. -/
def counted (c : Caller) : List Correction :=
  match c.handover with
  | some ⟨_, .counted job, _, _⟩ => [job]
  | _ => []

def unspawned (c : Caller) : List Correction :=
  match c.handover with
  | some ⟨_, .pending job, _, _⟩ => [job]
  | _ => []

end Caller

/-! ### Assemblies -/

inductive Watcher where
  /-- About to look at the pending count. -/
  | looking
  | asleep
  /-- Has been told whether nothing is pending. -/
  | told (done : Bool)
deriving DecidableEq

structure Assembly where
  workspace : Workspace
  pool : Pool.Execution
  callers : List Caller := []
  /-- The calls to the pool of the corrections that wait for a tree. -/
  calls : List Nat := []
  /-- The corrections that have got their trees. -/
  answered : List (Correction × Option Tree) := []
  /-- The corrections that have yet to add to the counter of their ending. -/
  decided : List (Correction × Ending) := []
  /-- The number of corrections that have ended and are still in the pending count. -/
  leaving : Nat := 0
  /-- The pending count. -/
  latch : Nat := 0
  watchers : List Watcher := []
  /-- What callers have said of the files that they have indexed. -/
  reported : List IndexedFile := []

namespace Assembly

/-- A turn. Callers, corrections and those who wait are known by their places. -/
inductive Move where
  | arrive (op : Operation)
  | call (caller : Nat)
  | begin (n : Nat)
  | answer (n : Nat)
  | settle (n : Nat)
  | count (n : Nat)
  /-- A correction that has ended goes out of the pending count. -/
  | leave
  | pool (m : Pool.Execution.Move)
  | watch
  | look (watcher : Nat)
  | wake (watcher : Nat)
  /-- The time of somebody who waits is up. -/
  | expire (watcher : Nat)

def handOver (a : Assembly) (n : Nat) (ts : List Task) : Handover → Assembly
  | ⟨file, .between, [], _⟩ =>
    { a with callers := a.callers.set n ⟨ts, none⟩, reported := a.reported ++ [file] }
  | ⟨file, .between, job :: left, fits⟩ =>
    if a.workspace.corrects then
      { a with
        workspace := a.workspace.countScheduled
        callers := a.callers.set n ⟨ts, some ⟨file, .counted job, left, Nat.le_of_succ_le fits⟩⟩ }
    else
      { a with callers := a.callers.set n ⟨ts, some ⟨file, .between, left, Nat.le_of_succ_le fits⟩⟩ }
  | ⟨file, .counted job, left, fits⟩ =>
    { a with
      callers := a.callers.set n ⟨ts, some ⟨file, .pending job, left, fits⟩⟩
      latch := a.latch + 1 }
  | ⟨file, .pending job, left, fits⟩ =>
    { a with
      workspace := a.workspace.spawn job
      callers := a.callers.set n ⟨ts, some ⟨file, .between, left, fits⟩⟩ }

def turn (a : Assembly) (n : Nat) : Caller → Assembly
  | ⟨ts, some handover⟩ => a.handOver n ts handover
  | ⟨t :: ts, none⟩ =>
    { a with
      workspace := (a.workspace.perform t).1
      callers := a.callers.set n (a.workspace.next t ts) }
  | ⟨[], none⟩ => a

/-- What the pool has answered to the correction that is the `n`-th to wait for a tree, once it
has. -/
def answer? (a : Assembly) (n : Nat) : Option (Option Tree) :=
  (a.calls[n]?.bind fun call => a.pool.calls[call]?).bind Call.answer?

/-- The call to the pool of a correction whose file has not moved on. -/
def request (a : Assembly) (c : Correction) : Assembly :=
  let s := a.workspace.settings.parse
  { a with
    workspace := { a.workspace with begun := a.workspace.begun ++ [c] }
    pool := a.pool.move (.submit c.ambiguity.statement s.dialect s.timeout.toMicros)
    calls := a.calls ++ [a.pool.calls.length] }

def lead (a : Assembly) (i : Nat) (w : Watcher) : Assembly :=
  { a with watchers := a.watchers.set i w }

/-- The assembly after a move; a move without anything to do changes nothing. -/
def move (a : Assembly) : Move → Assembly
  | .arrive op => { a with callers := a.callers ++ [⟨a.workspace.tasks op, none⟩] }
  | .call n =>
    match a.callers[n]? with
    | some c => a.turn n c
    | none => a
  | .begin n =>
    match a.workspace.scheduled[n]? with
    | none => a
    | some c =>
      let taken := { a with workspace := a.workspace.take n }
      if a.workspace.index.generation? c.uri = some c.generation then taken.request c
      else { taken with decided := a.decided ++ [(c, .stale)] }
  | .answer n =>
    match a.workspace.begun[n]?, a.answer? n with
    | some c, some tree =>
      { a with
        workspace := { a.workspace with begun := a.workspace.begun.eraseIdx n }
        calls := a.calls.eraseIdx n
        answered := a.answered ++ [(c, tree)] }
    | _, _ => a
  | .settle n =>
    match a.answered[n]? with
    | some (c, tree) =>
      let (ending, index) := a.workspace.settle c tree
      { a with
        workspace := { a.workspace with index }
        answered := a.answered.eraseIdx n
        decided := a.decided ++ [(c, ending)] }
    | none => a
  | .count n =>
    match a.decided[n]? with
    | some (_, ending) =>
      { a with
        workspace := a.workspace.count ending
        decided := a.decided.eraseIdx n
        leaving := a.leaving + 1 }
    | none => a
  | .leave =>
    if a.leaving = 0 then a else { a with leaving := a.leaving - 1, latch := a.latch - 1 }
  | .pool m => { a with pool := a.pool.move m }
  | .watch => { a with watchers := a.watchers ++ [.looking] }
  | .look i =>
    match a.watchers[i]? with
    | some .looking => a.lead i (if a.latch = 0 then .told true else .asleep)
    | _ => a
  | .wake i =>
    match a.watchers[i]? with
    | some .asleep => a.lead i .looking
    | _ => a
  | .expire i =>
    match a.watchers[i]? with
    | some .asleep => a.lead i (.told (a.latch == 0))
    | _ => a

def run (a : Assembly) (ms : List Move) : Assembly := ms.foldl move a

def start (w : Workspace) : Assembly where
  workspace := w
  pool := .start w.settings.parse

/-- The corrections that are in the pending count and have not ended. -/
def underway (a : Assembly) : List Correction :=
  a.callers.flatMap Caller.unspawned ++ (a.workspace.scheduled ++ (a.workspace.begun ++
    (a.answered.map (·.1) ++ a.decided.map (·.1))))

def counted (a : Assembly) : List Correction := a.callers.flatMap Caller.counted

/-! ### Corrections without interruption -/

/-- A correction that begins and counts its ending at once, if it has one, begins as it does in one
turn. -/
theorem move_begin_count {a : Assembly} (hnone : a.decided = []) (n : Nat) :
    ((a.move (.begin n)).move (.count 0)).workspace = a.workspace.beginCorrection n := by
  cases hc : a.workspace.scheduled[n]? with
  | none => simp [move, hc, hnone, beginCorrection]
  | some c =>
    rw [beginCorrection_eq hc]
    by_cases hcurrent : a.workspace.index.generation? c.uri = some c.generation
    · simp [move, hc, hcurrent, request, hnone, take]
    · simp [move, hc, hcurrent, hnone]

/-- A correction that settles and counts its ending at once ends as it does in one turn. -/
theorem move_settle_count {a : Assembly} (hnone : a.decided = []) {n : Nat} {c : Correction}
    {tree : Option Tree} (hc : a.answered[n]? = some (c, tree)) :
    ((a.move (.settle n)).move (.count 0)).workspace = a.workspace.correct c tree := by
  rw [correct_eq]
  simp [move, hc, hnone]

/-! ### Operations without interruption -/

/-- One caller can get from a workspace with some tasks to another with fewer by its own turns, and
says of some files that it has indexed them. -/
def Goes (n : Nat) (w : Workspace) (ts : List Task) (w' : Workspace) (ts' : List Task)
    (files : List IndexedFile) : Prop :=
  ∀ a : Assembly, a.workspace = w → a.callers[n]? = some ⟨ts, none⟩ → ∃ k,
    (a.run (List.replicate k (.call n))).workspace = w' ∧
    (a.run (List.replicate k (.call n))).callers[n]? = some ⟨ts', none⟩ ∧
    (a.run (List.replicate k (.call n))).reported = a.reported ++ files

theorem run_replicate_add (a : Assembly) (m : Move) (k k' : Nat) :
    a.run (List.replicate (k + k') m) =
      (a.run (List.replicate k m)).run (List.replicate k' m) := by
  rw [List.replicate_add, run, List.foldl_append]
  rfl

theorem Goes.trans {n : Nat} {w w' w'' : Workspace} {ts ts' ts'' : List Task}
    {files files' : List IndexedFile} (h : Goes n w ts w' ts' files)
    (h' : Goes n w' ts' w'' ts'' files') : Goes n w ts w'' ts'' (files ++ files') := by
  intro a hw hc
  obtain ⟨k, hw', hc', hfiles⟩ := h a hw hc
  obtain ⟨k', hw'', hc'', hfiles'⟩ := h' _ hw' hc'
  refine ⟨k + k', ?_⟩
  rw [run_replicate_add]
  exact ⟨hw'', hc'', hfiles'.trans (by rw [hfiles, List.append_assoc])⟩

theorem run_call {a : Assembly} {n k : Nat} {c : Caller} (hc : a.callers[n]? = some c) :
    a.run (List.replicate (k + 1) (.call n)) = (a.turn n c).run (List.replicate k (.call n)) := by
  rw [List.replicate_succ, run, List.foldl_cons, move, hc]
  rfl

theorem getElem?_callers {a : Assembly} {n : Nat} {c : Caller} (hc : a.callers[n]? = some c)
    (c' : Caller) : (a.callers.set n c')[n]? = some c' :=
  List.getElem?_set_self (List.getElem?_eq_some_iff.mp hc).1

/-- A caller that nothing interrupts schedules a correction as it does in one turn. -/
theorem run_scheduleOne {a : Assembly} {n : Nat} {ts : List Task} {file : IndexedFile}
    {job : Correction} {left : List Correction} {fits : (job :: left).length ≤ file.ambiguities}
    (hc : a.callers[n]? = some ⟨ts, some ⟨file, .between, job :: left, fits⟩⟩) :
    ∃ k, (a.run (List.replicate k (.call n))).workspace =
        a.workspace.schedule job.uri job.generation [job.ambiguity] ∧
      (a.run (List.replicate k (.call n))).callers[n]? =
        some ⟨ts, some ⟨file, .between, left, Nat.le_of_succ_le fits⟩⟩ ∧
      (a.run (List.replicate k (.call n))).reported = a.reported := by
  have hset (c : Caller) := getElem?_callers hc c
  rw [schedule_singleton]
  by_cases hcorrects : a.workspace.corrects = true
  · exact ⟨3, by simp [run, List.replicate_succ, move, hc, turn, handOver, hcorrects, hset]⟩
  · exact ⟨1, by simp [run, List.replicate_succ, move, hc, turn, handOver, hcorrects, hset]⟩

theorem run_schedule {n : Nat} {ts : List Task} {file : IndexedFile} {uri : String}
    {generation : Nat} (as : List Ambiguity) {a : Assembly} {left : List Correction}
    {fits : left.length ≤ file.ambiguities} (hleft : left = as.map (Correction.mk uri generation))
    (hc : a.callers[n]? = some ⟨ts, some ⟨file, .between, left, fits⟩⟩) :
    ∃ k, (a.run (List.replicate k (.call n))).workspace = a.workspace.schedule uri generation as ∧
      (a.run (List.replicate k (.call n))).callers[n]? = some ⟨ts, none⟩ ∧
      (a.run (List.replicate k (.call n))).reported = a.reported ++ [file] := by
  subst hleft
  induction as generalizing a with
  | nil =>
    refine ⟨1, ?_⟩
    rw [run_call hc]
    refine ⟨?_, getElem?_callers hc _, rfl⟩
    rw [schedule]
    split
    · simp [run, turn, handOver]
    · rfl
  | cons first as ih =>
    obtain ⟨k, hw, hcallers, hreported⟩ := run_scheduleOne hc
    obtain ⟨k', hw', hcallers', hreported'⟩ := ih hcallers
    refine ⟨k + k', ?_⟩
    rw [run_replicate_add, Execution.schedule_cons]
    exact ⟨by rw [hw', hw], hcallers', by rw [hreported', hreported]⟩

theorem goes_publish (n : Nat) (w : Workspace) (uri : String) (text : List Char) (ts : List Task) :
    Goes n w (.replace uri text :: ts) (w.publish uri text).2 ts [(w.publish uri text).1] := by
  rintro a rfl hc
  obtain ⟨k, hw, hcallers, hreported⟩ := run_schedule (a := a.turn n ⟨.replace uri text :: ts, none⟩) _
    (Execution.correction?_schedule uri _ _) (getElem?_callers hc _)
  refine ⟨k + 1, ?_⟩
  rw [run_call hc]
  exact ⟨hw, hcallers, hreported⟩

theorem next_of_ne {w : Workspace} {t : Task} (h : ∀ uri text, t ≠ .replace uri text)
    (ts : List Task) : w.next t ts = ⟨(w.perform t).2.1 ++ ts, none⟩ := by
  cases t with
  | replace uri text => exact absurd rfl (h uri text)
  | define file => rfl
  | schedule c => rfl
  | discard uri => rfl
  | remove uri => rfl

theorem Goes.of_proceeds {w w' : Workspace} {ts ts' : List Task} {files : List IndexedFile}
    (h : Execution.Proceeds w ts w' ts' files) (n : Nat) : Goes n w ts w' ts' files := by
  induction h with
  | refl w ts =>
    rintro a hw hc
    exact ⟨0, hw, hc, (List.append_nil _).symm⟩
  | task w ts ht =>
    rintro a rfl hc
    refine ⟨1, ?_⟩
    rw [run_call hc]
    refine ⟨rfl, ?_, (List.append_nil _).symm⟩
    rw [← next_of_ne ht]
    exact getElem?_callers hc _
  | publish w uri text ts => exact goes_publish n w uri text ts
  | trans _ _ ih ih' => exact ih.trans ih'

/-- A caller that nothing interrupts brings the indexing of a file to the workspace that it has as its
result, and says what it has found. -/
theorem goes_indexFile {w w' : Workspace} {uri : String} {text : List Char} {outcome : IndexOutcome}
    (h : w.indexFile uri text = .ok (outcome, w')) (n : Nat) :
    Goes n w (w.tasks (.indexFile uri text)) w' [] outcome.file?.toList := by
  have hproceeds := Execution.proceeds_indexFile h []
  rw [List.append_nil] at hproceeds
  exact .of_proceeds hproceeds n

/-- So it does with a batch. -/
theorem goes_indexBatch {w w' : Workspace} {files : List (String × List Char)}
    {outcomes : List IndexOutcome} (h : w.indexBatch files = .ok (outcomes, w')) (n : Nat) :
    Goes n w (w.tasks (.indexBatch files)) w' [] (outcomes.filterMap IndexOutcome.file?) := by
  have hproceeds := Execution.proceeds_indexBatch h []
  rw [List.append_nil] at hproceeds
  exact .of_proceeds hproceeds n

end Assembly

end SqlAtlas
