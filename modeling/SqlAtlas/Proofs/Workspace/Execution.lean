import SqlAtlas.Index.Query
import SqlAtlas.Workspace

/-!
# Executions

Several callers operate on one workspace while its corrections run. An operation is a list of
tasks, each of which nothing else can interrupt; between two of them, other callers and corrections
may get their turn. A correction has three turns: it looks whether its file has moved on, it gets
the tree of its statement, and it takes references out.

An execution also writes down what has been indexed and which corrections have been applied.
-/

namespace SqlAtlas

set_option autoImplicit false

def IndexOutcome.file? : IndexOutcome → Option IndexedFile
  | indexed file => some file
  | skipped _ => none

namespace Workspace

inductive Operation where
  | indexFile (uri : String) (text : List Char)
  | indexBatch (files : List (String × List Char))
  | deindexFile (uri : String)

/-- A part of an operation that nothing can interrupt. -/
inductive Task where
  | define (file : String × List Char)
  | replace (uri : String) (text : List Char)
  | schedule (c : Correction)
  /-- Looks whether a file that is left out has to be removed. -/
  | discard (uri : String)
  | remove (uri : String)

inductive Event where
  | indexed (uri : String) (generation : Nat) (found : Extraction)
  | applied (c : Correction) (keep : Name)
deriving DecidableEq

def fileTasks (w : Workspace) (uri : String) (text : List Char) : List Task :=
  match w.skipReason? uri (Text.size text) with
  | .error _ => []
  | .ok (some _) => [.discard uri]
  | .ok none => [.replace uri text]

def tasks (w : Workspace) : Operation → List Task
  | .indexFile uri text => w.fileTasks uri text
  | .indexBatch files =>
    match w.eligible files with
    | .error _ => []
    | .ok kept => kept.map .define ++ files.flatMap fun file => w.fileTasks file.1 file.2
  | .deindexFile uri => [.remove uri]

/-- The workspace after a task, the tasks that this brings up next, and what is written down. -/
def perform (w : Workspace) : Task → Workspace × List Task × List Event
  | .define file => (w.publishDefinitions file, [], [])
  | .replace uri text =>
    let (p, index) := w.index.replaceFile uri text (definitions uri text) (.ofText text)
      w.settings.maxReferences
    ({ w with index }, p.extracted.ambiguities.map fun a => .schedule ⟨uri, p.generation, a⟩,
      [.indexed uri p.generation p.extracted])
  | .schedule c => (w.schedule c.uri c.generation [c.ambiguity], [], [])
  | .discard uri => (w, if (w.index.generation? uri).isSome then [.remove uri] else [], [])
  | .remove uri => (w.deindexFile uri, [], [])

def correctionEvents (w : Workspace) (c : Correction) (tree : Option Tree) : List Event :=
  let a := c.ambiguity
  match disambiguate tree a.column a.aliases a.candidates with
  | .accepted keep =>
    match w.index.applyCorrection c.uri c.generation a.place a.column keep a.provisional with
    | (.applied _, _) => [.applied c keep]
    | _ => []
  | _ => []

theorem index_schedule (w : Workspace) (uri : String) (generation : Nat) (as : List Ambiguity) :
    (w.schedule uri generation as).index = w.index := by
  rw [schedule]
  split <;> rfl

theorem settings_schedule (w : Workspace) (uri : String) (generation : Nat) (as : List Ambiguity) :
    (w.schedule uri generation as).settings = w.settings := by
  rw [schedule]
  split <;> rfl

theorem filter_schedule (w : Workspace) (uri : String) (generation : Nat) (as : List Ambiguity) :
    (w.schedule uri generation as).filter = w.filter := by
  rw [schedule]
  split <;> rfl

theorem settings_perform (w : Workspace) (t : Task) : (w.perform t).1.settings = w.settings := by
  cases t with
  | schedule c => exact settings_schedule w _ _ _
  | define file => rfl
  | replace uri text => rfl
  | discard uri => rfl
  | remove uri => rfl

end Workspace

open Workspace

structure Execution where
  workspace : Workspace
  callers : List (List Task)
  answered : List (Correction × Option Tree) := []
  events : List Event := []

namespace Execution

inductive Move where
  | call (caller : Nat)
  | begin (n : Nat)
  | answer (n : Nat) (tree : Option Tree)
  | finish (n : Nat)

def turn (e : Execution) (caller : Nat) (t : Task) (ts : List Task) : Execution :=
  let (w, more, log) := e.workspace.perform t
  { e with
    workspace := w
    callers := e.callers.set caller (more ++ ts)
    events := e.events ++ log }

def move (e : Execution) : Move → Execution
  | .call caller =>
    match e.callers[caller]? with
    | some (t :: ts) => e.turn caller t ts
    | _ => e
  | .begin n => { e with workspace := e.workspace.beginCorrection n }
  | .answer n tree =>
    match e.workspace.begun[n]? with
    | some c =>
      { e with
        workspace := { e.workspace with begun := e.workspace.begun.eraseIdx n }
        answered := e.answered ++ [(c, tree)] }
    | none => e
  | .finish n =>
    match e.answered[n]? with
    | some (c, tree) =>
      { e with
        workspace := e.workspace.correct c tree
        answered := e.answered.eraseIdx n
        events := e.events ++ e.workspace.correctionEvents c tree }
    | none => e

/-- Which trees a statement may get. -/
abbrev Answers := Dialect → List Char → Option Tree → Prop

/-- A move that gives a correction a tree gives it one that its statement may get. -/
def Move.Faithful (answers : Answers) (e : Execution) : Move → Prop
  | .answer n tree => ∀ c, e.workspace.begun[n]? = some c →
      answers e.workspace.settings.parse.dialect c.ambiguity.statement tree
  | _ => True

inductive Reachable (answers : Answers) (start : Execution) : Execution → Prop where
  | start : Reachable answers start start
  | move {e : Execution} (m : Move) :
    Reachable answers start e → m.Faithful answers e → Reachable answers start (e.move m)

def run (e : Execution) (ms : List Move) : Execution := ms.foldl move e

def ofCallers (w : Workspace) (callers : List (List Operation)) : Execution where
  workspace := w
  callers := callers.map fun ops => ops.flatMap w.tasks

def Idle (e : Execution) : Prop :=
  (∀ ts ∈ e.callers, ts = []) ∧ e.workspace.scheduled = [] ∧ e.workspace.begun = [] ∧
    e.answered = []

instance (e : Execution) : Decidable e.Idle :=
  decidable_of_iff (e.callers.all List.isEmpty = true ∧ e.workspace.scheduled.isEmpty = true ∧
    e.workspace.begun.isEmpty = true ∧ e.answered.isEmpty = true) (by simp [Idle])

theorem Reachable.trans {answers : Answers} {e f g : Execution} (hf : Reachable answers e f)
    (hg : Reachable answers f g) : Reachable answers e g := by
  induction hg with
  | start => exact hf
  | move m _ hm ih => exact ih.move m hm

theorem reachable_run {answers : Answers} (e : Execution) {ms : List Move}
    (h : ∀ m ∈ ms, ∀ f, m.Faithful answers f) : Reachable answers e (e.run ms) := by
  induction ms generalizing e with
  | nil => exact .start
  | cons m ms ih =>
    have hfirst : Reachable answers e (e.move m) := Reachable.start.move m (h m List.mem_cons_self e)
    exact hfirst.trans (ih (e.move m) fun n hn => h n (List.mem_cons_of_mem m hn))

/-! ### Operations without interruption -/

def result (w : Workspace) : Operation → Except FilterFault Workspace
  | .indexFile uri text => (w.indexFile uri text).map (·.2)
  | .indexBatch files => (w.indexBatch files).map (·.2)
  | .deindexFile uri => .ok (w.deindexFile uri)

/-- One caller gets from a workspace with some tasks to another with fewer, and finds some files on
the way. -/
inductive Proceeds : Workspace → List Task → Workspace → List Task → List IndexedFile → Prop where
  | refl (w : Workspace) (ts : List Task) : Proceeds w ts w ts []
  | task {t : Task} (w : Workspace) (ts : List Task) (h : ∀ uri text, t ≠ .replace uri text) :
    Proceeds w (t :: ts) (w.perform t).1 ((w.perform t).2.1 ++ ts) []
  | publish (w : Workspace) (uri : String) (text : List Char) (ts : List Task) :
    Proceeds w (.replace uri text :: ts) (w.publish uri text).2 ts [(w.publish uri text).1]
  | trans {w w' w'' : Workspace} {ts ts' ts'' : List Task} {files files' : List IndexedFile} :
    Proceeds w ts w' ts' files → Proceeds w' ts' w'' ts'' files' →
      Proceeds w ts w'' ts'' (files ++ files')

theorem proceeds_indexFile {w w' : Workspace} {uri : String} {text : List Char}
    {outcome : IndexOutcome} (h : w.indexFile uri text = .ok (outcome, w')) (ts : List Task) :
    Proceeds w (w.fileTasks uri text ++ ts) w' ts outcome.file?.toList := by
  rw [indexFile] at h
  rw [fileTasks]
  cases hskip : w.skipReason? uri (Text.size text) with
  | error fault => rw [hskip] at h; cases h
  | ok reason? =>
    rw [hskip] at h
    cases reason? with
    | none =>
      cases h
      exact .publish w uri text ts
    | some reason =>
      have hdiscard : Proceeds w (.discard uri :: ts) _ _ [] := .task w ts nofun
      rw [perform] at hdiscard
      cases hgen : (w.index.generation? uri).isSome with
      | true =>
        have hgen' : (w.index.generations.get? uri).isSome = true := hgen
        rw [if_pos hgen'] at h
        cases h
        rw [if_pos hgen] at hdiscard
        exact hdiscard.trans (.task w ts nofun)
      | false =>
        have hgen' : (w.index.generations.get? uri).isSome = false := hgen
        rw [hgen', if_neg (by simp)] at h
        cases h
        rw [hgen, if_neg (by simp)] at hdiscard
        exact hdiscard

theorem filter_indexFile {w w' : Workspace} {uri : String} {text : List Char}
    {outcome : IndexOutcome} (h : w.indexFile uri text = .ok (outcome, w')) : w'.filter = w.filter := by
  rw [indexFile] at h
  split at h
  · cases h
  · cases h
    split <;> rfl
  · cases h
    exact filter_schedule _ uri _ _

theorem proceeds_indexFiles (files : List (String × List Char)) {v w w' : Workspace}
    {outcomes : List IndexOutcome} (hv : w.filter = v.filter)
    (h : w.indexFiles files = .ok (outcomes, w')) (ts : List Task) :
    Proceeds w ((files.flatMap fun file => v.fileTasks file.1 file.2) ++ ts) w' ts
      (outcomes.filterMap IndexOutcome.file?) := by
  induction files generalizing w outcomes with
  | nil =>
    cases h
    exact .refl w' ts
  | cons file files ih =>
    obtain ⟨uri, text⟩ := file
    rw [indexFiles] at h
    cases hfile : w.indexFile uri text with
    | error fault => rw [hfile] at h; cases h
    | ok first =>
      obtain ⟨outcome, next⟩ := first
      rw [hfile] at h
      simp only at h
      cases hrest : next.indexFiles files with
      | error fault => rw [hrest] at h; cases h
      | ok last =>
        obtain ⟨others, final⟩ := last
        rw [hrest] at h
        cases h
        have hsame : v.fileTasks uri text = w.fileTasks uri text := by
          rw [fileTasks, fileTasks, skipReason?, skipReason?, hv]
        have hfiles : (outcome :: others).filterMap IndexOutcome.file? =
            outcome.file?.toList ++ others.filterMap IndexOutcome.file? := by
          cases outcome <;> rfl
        rw [List.flatMap_cons, List.append_assoc, hsame, hfiles]
        exact (proceeds_indexFile hfile _).trans (ih ((filter_indexFile hfile).trans hv) hrest)

theorem filter_publishDefinitions (kept : List (String × List Char)) (w : Workspace) :
    (kept.foldl publishDefinitions w).filter = w.filter := by
  induction kept generalizing w with
  | nil => rfl
  | cons file kept ih => exact ih (w.publishDefinitions file)

theorem proceeds_define (kept : List (String × List Char)) (w : Workspace) (ts : List Task) :
    Proceeds w (kept.map Task.define ++ ts) (kept.foldl publishDefinitions w) ts [] := by
  induction kept generalizing w with
  | nil => exact .refl w ts
  | cons file kept ih => exact .trans (.task (t := .define file) w _ nofun) (ih (w.publishDefinitions file))

theorem proceeds_indexBatch {w w' : Workspace} {files : List (String × List Char)}
    {outcomes : List IndexOutcome} (h : w.indexBatch files = .ok (outcomes, w')) (ts : List Task) :
    Proceeds w (w.tasks (.indexBatch files) ++ ts) w' ts
      (outcomes.filterMap IndexOutcome.file?) := by
  rw [indexBatch] at h
  rw [tasks]
  cases hkept : w.eligible files with
  | error fault => rw [hkept] at h; cases h
  | ok kept =>
    rw [hkept] at h
    simp only at h ⊢
    rw [List.append_assoc]
    exact (proceeds_define kept w _).trans
      (proceeds_indexFiles files (filter_publishDefinitions kept w) h ts)

section

variable {answers : Answers}

def Goes (answers : Answers) (w : Workspace) (ts : List Task) (w' : Workspace) (ts' : List Task) :
    Prop :=
  ∀ as es, ∃ es', Reachable answers ⟨w, [ts], as, es⟩ ⟨w', [ts'], as, es'⟩

theorem Goes.refl (w : Workspace) (ts : List Task) : Goes answers w ts w ts :=
  fun _ es => ⟨es, .start⟩

theorem Goes.trans {w w' w'' : Workspace} {ts ts' ts'' : List Task} (h : Goes answers w ts w' ts')
    (h' : Goes answers w' ts' w'' ts'') : Goes answers w ts w'' ts'' := by
  intro as es
  obtain ⟨es', hreach⟩ := h as es
  obtain ⟨es'', hreach'⟩ := h' as es'
  exact ⟨es'', hreach.trans hreach'⟩

theorem goes_perform (w : Workspace) (t : Task) (ts : List Task) :
    Goes answers w (t :: ts) (w.perform t).1 ((w.perform t).2.1 ++ ts) :=
  fun _ _ => ⟨_, Reachable.start.move (.call 0) trivial⟩

theorem schedule_cons (w : Workspace) (uri : String) (generation : Nat) (a : Ambiguity)
    (as : List Ambiguity) : w.schedule uri generation (a :: as) =
      (w.schedule uri generation [a]).schedule uri generation as := by
  cases hc : w.corrects with
  | false => simp [schedule, hc]
  | true =>
    have hc' : (w.schedule uri generation [a]).corrects = true := by
      rw [schedule, if_pos hc]
      exact hc
    rw [schedule, if_pos hc, schedule, if_pos hc', schedule, if_pos hc]
    simp only [List.map_cons, List.map_nil, List.append_assoc, List.cons_append, List.nil_append,
      List.length_cons, List.length_nil, Nat.zero_add, Nat.add_assoc, Nat.add_comm 1]

theorem goes_schedule (uri : String) (generation : Nat) (as : List Ambiguity) (w : Workspace)
    (ts : List Task) :
    Goes answers w ((as.map fun a => Task.schedule ⟨uri, generation, a⟩) ++ ts)
      (w.schedule uri generation as) ts := by
  induction as generalizing w with
  | nil =>
    have hnone : w.schedule uri generation [] = w := by
      rw [schedule]
      split
      · simp
      · rfl
    rw [hnone]
    exact Goes.refl w ts
  | cons a as ih =>
    rw [schedule_cons]
    exact (goes_perform w _ _).trans (ih (w.schedule uri generation [a]))

theorem goes_publish (w : Workspace) (uri : String) (text : List Char) (ts : List Task) :
    Goes answers w (.replace uri text :: ts) (w.publish uri text).2 ts :=
  (goes_perform w (.replace uri text) ts).trans (goes_schedule uri _ _ _ ts)

theorem Proceeds.goes {w w' : Workspace} {ts ts' : List Task} {files : List IndexedFile}
    (h : Proceeds w ts w' ts' files) : Goes answers w ts w' ts' := by
  induction h with
  | refl w ts => exact Goes.refl w ts
  | @task t w ts _ => exact goes_perform w t ts
  | publish w uri text ts => exact goes_publish w uri text ts
  | trans _ _ ih ih' => exact ih.trans ih'

/-- A caller that nothing interrupts brings its operation to the workspace that the operation has
as its result. -/
theorem goes_result {w w' : Workspace} {op : Operation} (h : result w op = .ok w')
    (ts : List Task) : Goes answers w (w.tasks op ++ ts) w' ts := by
  cases op with
  | indexFile uri text =>
    cases hfile : w.indexFile uri text with
    | error fault => rw [result, hfile] at h; cases h
    | ok found =>
      rw [result, hfile] at h
      cases h
      exact (proceeds_indexFile hfile ts).goes
  | indexBatch files =>
    cases hbatch : w.indexBatch files with
    | error fault => rw [result, hbatch] at h; cases h
    | ok found =>
      rw [result, hbatch] at h
      cases h
      exact (proceeds_indexBatch hbatch ts).goes
  | deindexFile uri =>
    cases h
    exact goes_perform w (.remove uri) ts

end

/-- A correction that gets its tree and goes on at once ends as it does in one turn. -/
theorem move_answer_finish (e : Execution) (n : Nat) (tree : Option Tree) :
    ((e.move (.answer n tree)).move (.finish e.answered.length)).workspace =
      e.workspace.endCorrection n tree := by
  rw [endCorrection]
  cases hc : e.workspace.begun[n]? with
  | none => simp [move, hc]
  | some c => simp [move, hc]

/-! ### A schema and an update -/

def sampleSchema : List Char := "create table a (x int);create table b (x int);".toList

/-- A statement that names the column without saying whose it is. -/
def sampleUpdate : List Char := "update a set x = 1 from b".toList

/-- The tree of the statement, by which the column is that of the table that changes. -/
def sampleTree : Tree :=
  [.update ⟨.ofText "a", none⟩ [.table ⟨.ofText "b", none⟩] [⟨none, .ofText "x"⟩] []]

end Execution

end SqlAtlas
