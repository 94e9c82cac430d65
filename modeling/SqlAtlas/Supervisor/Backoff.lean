import SqlAtlas.Supervisor

/-!
# Pauses in machine words

The pause before a new worker, computed as a machine does it: failures are counted in 32 bits, a pause
has whole nanoseconds in at most as many seconds as 64 bits can count, and its product with a word stops
at the longest one. Shifting a word by its width or more is a fault.
-/

namespace SqlAtlas

set_option autoImplicit false

def longestNanos : Nat := UInt64.size * 1000000000 - 1

structure Pause where
  nanos : Nat
  nanos_le : nanos ≤ longestNanos
deriving DecidableEq

namespace Pause

/-- So many nanoseconds, or the longest pause. -/
def ofNanos (n : Nat) : Pause := ⟨min n longestNanos, Nat.min_le_right _ _⟩

/-- A pause taken so many times, or the longest pause. -/
def times (p : Pause) (k : UInt32) : Pause := ofNanos (p.nanos * k.toNat)

def shorter (p q : Pause) : Pause := if p.nanos ≤ q.nanos then p else q

end Pause

inductive WordFault where
  /-- A word shifted by its width or more. -/
  | shift (amount : UInt32)
deriving DecidableEq, Repr

def bitAt (amount : UInt32) : Except WordFault UInt32 :=
  if amount < 32 then .ok (1 <<< amount) else .error (.shift amount)

structure Backoff where
  base : Pause
  cap : Pause
  maxFailures : UInt32
deriving DecidableEq

namespace Backoff

def delay? (p : Backoff) (failures : UInt32) : Except WordFault (Option Pause) :=
  if p.maxFailures ≤ failures then .ok none
  else
    let before := if failures = 0 then 0 else failures - 1
    match bitAt (min before 31) with
    | .error e => .error e
    | .ok factor => .ok (some ((p.base.times factor).shorter p.cap))

def policy (p : Backoff) : RestartPolicy := ⟨p.base.nanos, p.cap.nanos, p.maxFailures.toNat⟩

end Backoff

end SqlAtlas
