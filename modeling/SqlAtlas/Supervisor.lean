/-!
# Supervision of workers

A worker slot goes from spawning to idle, and from idle to busy and back, until its worker exits.
Every exit counts as a failure and every answer takes one failure back. The pause before a new
worker doubles with every failure up to a cap, and a slot that fails too often is given up.
-/

namespace SqlAtlas

set_option autoImplicit false

/-- How long to wait before a new worker, and when to stop trying. Times are in microseconds. -/
structure RestartPolicy where
  baseDelay : Nat := 100000
  maxDelay : Nat := 5000000
  maxFailures : Nat := 6
deriving DecidableEq, Repr, Inhabited

/-- The pause after some failures in a row; none once there are too many. The doubling stops after
the thirty-second failure. -/
def RestartPolicy.delay? (p : RestartPolicy) (failures : Nat) : Option Nat :=
  if p.maxFailures ≤ failures then none
  else some (min (p.baseDelay <<< min (failures - 1) 31) p.maxDelay)

inductive WorkerState where
  | spawning
  | idle
  | busy
  | exited
deriving DecidableEq, Repr, Inhabited

inductive ExitDecision where
  | respawn (delay : Nat)
  | giveUp
deriving DecidableEq, Repr

structure Supervisor where
  policy : RestartPolicy
  state : WorkerState := .spawning
  failures : Nat := 0
  /-- Whether the slot was given up. -/
  degraded : Bool := false
  spawnAttempts : Nat := 0
deriving DecidableEq, Repr, Inhabited

namespace Supervisor

def isLive (s : Supervisor) : Bool := s.state == .idle || s.state == .busy

def attemptSpawn (s : Supervisor) : Supervisor :=
  { s with spawnAttempts := s.spawnAttempts + 1, state := .spawning }

def spawned (s : Supervisor) : Supervisor := { s with state := .idle }

def dispatched (s : Supervisor) : Supervisor := { s with state := .busy }

def succeeded (s : Supervisor) : Supervisor :=
  { s with
    failures := s.failures - 1
    state := if s.state = .busy then .idle else s.state }

def exited (s : Supervisor) : ExitDecision × Supervisor :=
  let failed := { s with state := .exited, failures := s.failures + 1 }
  match s.policy.delay? failed.failures with
  | some delay =>
    if s.degraded then (.giveUp, failed) else (.respawn delay, failed)
  | none => (.giveUp, { failed with degraded := true })

end Supervisor

end SqlAtlas
