import SqlAtlas.Pool
import SqlAtlas.Text.Slice

/-!
# Calls to the pool

A caller looks into the cache, checks that the pool takes jobs, enters its job, waits, and stores
the answer. Other callers and workers may act between any two of these steps. A statement that is
too long is turned away before the first of them.

The clock counts seconds with sign in 64 bits. A caller that would wait until a moment beyond that
fails while it enters its job: it has been put down as waiting by then, and its job does not exist.
-/

namespace SqlAtlas

set_option autoImplicit false

inductive CallStage where
  /-- About to look into the cache. -/
  | looking
  /-- About to check that the pool takes jobs. -/
  | checking
  /-- About to enter its job. -/
  | entering
  | waiting (job : Nat)
  /-- Has failed to enter its job, and is told nothing. -/
  | failed
  /-- About to store its answer. -/
  | storing (answer : Option Tree)
  | returned (answer : Option Tree)

structure Call where
  text : List Char
  dialect : Dialect
  /-- How long the caller waits. -/
  timeout : Micros
  stage : CallStage := .looking

namespace Pool

/-- The first moment that is too late for the clock. -/
def clockEnd : Nat := UInt64.size / 2 * 1000000

/-- The next job, unless its deadline is too late for the clock. -/
def nextJob? (p : Pool) (text : List Char) (dialect : Dialect) (timeout : Micros) : Option Job :=
  let deadline := p.now + timeout.count
  if deadline < clockEnd then some ⟨p.nextJob, text, dialect, deadline⟩ else none

def register (p : Pool) : Pool :=
  { p with nextJob := p.nextJob + 1, waiters := p.waiters ++ [p.nextJob] }

/-- Enters a job for a waiting caller, and answers the number of the job if there is one. -/
def enter (p : Pool) (text : List Char) (dialect : Dialect) (timeout : Micros) : Option Nat × Pool :=
  match p.nextJob? text dialect timeout with
  | some job =>
    let queued := { p.register with submitted := p.submitted + 1, queue := p.queue ++ [job] }
    (some job.id, queued.dispatch)
  | none => (none, p.register)

/-- A caller stops waiting, and its job is not started any more. -/
def forget (p : Pool) (id : Nat) : Pool :=
  { p with
    waiters := p.waiters.filter fun w => decide (w ≠ id)
    queue := p.queue.filter fun j => decide (j.id ≠ id)
    answers := p.answers.erase id }

end Pool

namespace Call

def key (c : Call) : String := statementKey c.dialect c.text

/-- The next step of a caller. A caller that waits picks up its answer, if there is one. -/
def step (c : Call) (p : Pool) : Call × Pool :=
  match c.stage with
  | .looking =>
    if p.settings.maxStatementBytes < Text.size c.text then
      ({ c with stage := .returned none }, p)
    else
      match p.cache.get c.key with
      | (some answer, cache) => ({ c with stage := .returned answer }, { p with cache := cache })
      | (none, cache) => ({ c with stage := .checking }, { p with cache := cache })
  | .checking =>
    if p.isShutdown || !p.isReady then ({ c with stage := .storing none }, p)
    else ({ c with stage := .entering }, p)
  | .entering =>
    match p.enter c.text c.dialect c.timeout with
    | (some id, p) => ({ c with stage := .waiting id }, p)
    | (none, p) => ({ c with stage := .failed }, p)
  | .waiting id =>
    match p.answers.get? id with
    | some answer =>
      ({ c with stage := .storing answer }, { p with answers := p.answers.erase id })
    | none => (c, p)
  | .storing answer =>
    ({ c with stage := .returned answer }, { p with cache := p.cache.insert c.key answer })
  | .failed | .returned _ => (c, p)

def expire (c : Call) (p : Pool) : Call × Pool :=
  match c.stage with
  | .waiting id => ({ c with stage := .storing none }, p.forget id)
  | _ => (c, p)

def answer? (c : Call) : Option (Option Tree) :=
  match c.stage with
  | .returned answer => some answer
  | _ => none

def steps : Nat → Call → Pool → Call × Pool
  | 0, c, p => (c, p)
  | n + 1, c, p =>
    let (c, p) := c.step p
    steps n c p

/-- The steps of a caller until it waits or has returned: five are enough. -/
def proceed (c : Call) (p : Pool) : Call × Pool := steps 5 c p

end Call

end SqlAtlas
