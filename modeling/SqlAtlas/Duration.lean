/-!
# Durations

The length of a duration is bounded: its seconds are counted in 64 bits. A duration is written in
the largest unit that it reaches, with the fraction that is left and no trailing zeros.
-/

namespace SqlAtlas

set_option autoImplicit false

/-- A duration in a unit of which there are `parts` in a second. -/
structure TimeSpan (parts : Nat) where
  count : Nat
  le : count ≤ UInt64.size * parts - 1
deriving DecidableEq, Repr

abbrev Millis := TimeSpan 1000

abbrev Micros := TimeSpan 1000000

namespace TimeSpan

variable {parts : Nat}

def longest : TimeSpan parts := ⟨UInt64.size * parts - 1, Nat.le_refl _⟩

/-- A number of units, or the longest duration if that is shorter. -/
def of (n : Nat) : TimeSpan parts := if h : n ≤ UInt64.size * parts - 1 then ⟨n, h⟩ else longest

instance : Inhabited (TimeSpan parts) := ⟨of 0⟩

instance {n : Nat} : OfNat (TimeSpan parts) n := ⟨of n⟩

/-- A limit for those who name none: a hundred years. -/
def century : TimeSpan parts := of (3155760000 * parts)

instance : Coe (Option Nat) (TimeSpan parts) := ⟨fun limit => (limit.map of).getD century⟩

instance : CoeOut (TimeSpan parts) Nat := ⟨count⟩

def toMicros (t : Millis) : Micros where
  count := 1000 * t.count
  le := by
    have hle := t.le
    omega

end TimeSpan

namespace Duration

def padded (width n : Nat) : List Char :=
  let digits := Nat.toDigits 10 n
  List.replicate (width - digits.length) '0' ++ digits

/-- A number in units of `unit`, the power of ten of `places`, with as many decimal places and no
trailing zeros. -/
def decimal (places unit n : Nat) : List Char :=
  let fraction := ((padded places (n % unit)).reverse.dropWhile (· == '0')).reverse
  Nat.toDigits 10 (n / unit) ++ if fraction.isEmpty then [] else '.' :: fraction

def ofNanos (n : Nat) : String :=
  if 1000000000 ≤ n then String.ofList (decimal 9 1000000000 n) ++ "s"
  else if 1000000 ≤ n then String.ofList (decimal 6 1000000 n) ++ "ms"
  else if 1000 ≤ n then String.ofList (decimal 3 1000 n) ++ "µs"
  else String.ofList (Nat.toDigits 10 n) ++ "ns"

def ofMicros (n : Nat) : String := ofNanos (1000 * n)

end Duration

end SqlAtlas
