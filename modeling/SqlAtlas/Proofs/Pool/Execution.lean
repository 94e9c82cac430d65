import SqlAtlas.Pool.Call

/-!
# Executions of a pool

Callers, workers and the one who closes the pool take turns in any order. A turn is a step of the
pool that nothing else can interrupt; what happens between two steps of one party is kept beside the
pool. A worker parses its job in one turn and says what came out in a later one. An ended worker may
have found the pool open long before it says that it has ended. Closing raises a flag first and
gives up the jobs later.

An execution also writes down what parsers have returned. Nothing is assumed of parsers: each may
return anything at any time.
-/

namespace SqlAtlas

set_option autoImplicit false

structure Parse where
  worker : WorkerId
  job : Job
  outcome : ParseOutcome

/-- A worker that has found the pool open says that it has ended, though the pool may be closing by
now. -/
def Pool.reportLate (p : Pool) (id : WorkerId) : Pool :=
  let reported := { p with exits := p.exits.erase id }
  if (p.slotOf? id).isNone then reported else reported.retire id.slot

/-- Whether a caller has found the pool alive and has yet to enter its job. -/
def Call.isEntering (c : Call) : Bool :=
  match c.stage with
  | .entering => true
  | _ => false

def Call.hasFailed (c : Call) : Bool :=
  match c.stage with
  | .failed => true
  | _ => false

theorem Pool.reportExit_of_open {p : Pool} (h : p.isShutdown = false) (id : WorkerId) :
    p.reportExit id = p.reportLate id := by
  simp [reportExit, reportLate, h]

theorem Pool.nextJob?_eq_some {p : Pool} {text : List Char} {dialect : Dialect} {timeout : Micros}
    {job : Job} (h : p.nextJob? text dialect timeout = some job) :
    p.now + timeout.count < clockEnd ∧ job = ⟨p.nextJob, text, dialect, p.now + timeout.count⟩ := by
  rw [nextJob?] at h
  split at h
  · rename_i hlt
    exact ⟨hlt, (Option.some.inj h).symm⟩
  · cases h

theorem Pool.nextJob?_eq_none {p : Pool} {text : List Char} {dialect : Dialect} {timeout : Micros}
    (h : p.nextJob? text dialect timeout = none) : clockEnd ≤ p.now + timeout.count := by
  rw [nextJob?] at h
  split at h
  · cases h
  · rename_i hle
    exact Nat.le_of_not_lt hle

structure Pool.Execution where
  pool : Pool
  /-- All calls that were ever made. -/
  calls : List Call := []
  /-- All that parsers have returned, the latest last. -/
  parses : List Parse := []
  /-- What parsers have returned and workers have yet to report. -/
  unreported : List Parse := []
  /-- The ended workers that have found the pool open. -/
  noticed : List WorkerId := []
  /-- Whether the flag is up and the jobs have yet to be given up. -/
  closing : Bool := false

namespace Pool.Execution

/-- A turn. Calls, workers and what else is under way are known by their places. -/
inductive Move where
  | submit (text : List Char) (dialect : Dialect) (timeout : Micros)
  | proceed (call : Nat)
  | expire (call : Nat)
  | parse (worker : Nat) (outcome : ParseOutcome)
  | report (n : Nat)
  | hangUp (worker : Nat)
  | notice (n : Nat)
  | exit (n : Nat)
  | respawn (n : Nat)
  | disconnect (slot : Nat)
  | close
  | drain
  /-- The time of the pool passes. -/
  | wait (span : Nat)
  /-- The time of the cache passes. -/
  | age (span : Nat)

def turn (e : Execution) (i : Nat) (act : Call → Pool → Call × Pool) : Execution :=
  match e.calls[i]? with
  | none => e
  | some c =>
    let (c, pool) := act c e.pool
    { e with pool, calls := e.calls.set i c }

/-- The execution after a move; a move without anything to do changes nothing. -/
def move (e : Execution) : Move → Execution
  | .submit text dialect timeout => { e with calls := e.calls ++ [{ text, dialect, timeout }] }
  | .proceed i => e.turn i Call.step
  | .expire i => e.turn i Call.expire
  | .parse n outcome =>
    match e.pool.workers[n]? with
    | some ⟨id, some job⟩ =>
      if e.unreported.any fun p => decide (p.worker = id) then e
      else
        { e with
          parses := e.parses ++ [⟨id, job, outcome⟩]
          unreported := e.unreported ++ [⟨id, job, outcome⟩] }
    | _ => e
  | .report n =>
    match e.unreported[n]? with
    | some p =>
      { e with
        pool := e.pool.finish ⟨p.worker, some p.job⟩ p.outcome
        unreported := e.unreported.eraseIdx n }
    | none => e
  | .hangUp n =>
    match e.pool.workers[n]? with
    | some w => { e with pool := e.pool.hangUp w }
    | none => e
  | .notice n =>
    match e.pool.exits[n]? with
    | some id => if e.pool.isShutdown then e else { e with noticed := e.noticed ++ [id] }
    | none => e
  | .exit n =>
    match e.pool.exits[n]? with
    | some id =>
      { e with
        pool := if id ∈ e.noticed then e.pool.reportLate id else e.pool.reportExit id
        noticed := e.noticed.filter fun other => decide (other ≠ id) }
    | none => e
  | .respawn n =>
    match e.pool.respawns[n]? with
    | some r => { e with pool := e.pool.respawn r }
    | none => e
  | .disconnect i => { e with pool := e.pool.disconnect i }
  | .close =>
    if e.pool.isShutdown then e else { e with pool := e.pool.raiseShutdown, closing := true }
  | .drain => if e.closing then { e with pool := e.pool.drain, closing := false } else e
  | .wait span => { e with pool := { e.pool with now := e.pool.now + span } }
  | .age span => { e with pool := { e.pool with cache := e.pool.cache.advance span } }

def run (e : Execution) (ms : List Move) : Execution := ms.foldl move e

def start (s : ParseSettings) : Execution where
  pool := Pool.start s

end Pool.Execution

end SqlAtlas
