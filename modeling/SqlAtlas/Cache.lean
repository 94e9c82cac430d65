/-!
# Caches with an age limit

A cache holds a bounded number of entries, each for a bounded time. When it is full the oldest
insertion goes; an entry past its time goes when it is looked up. Time is what the cache is told.
-/

namespace SqlAtlas

set_option autoImplicit false

structure CacheEntry (κ α : Type) where
  key : κ
  value : α
  inserted : Nat
deriving DecidableEq, Repr

/-- A cache, with the entries in the order of their insertion. -/
structure TtlCache (κ α : Type) where
  capacity : Nat
  /-- How long an entry lasts. -/
  ttl : Nat
  now : Nat := 0
  entries : List (CacheEntry κ α) := []
deriving DecidableEq, Repr

namespace TtlCache

variable {κ α : Type} [DecidableEq κ]

def find? (c : TtlCache κ α) (k : κ) : Option (CacheEntry κ α) :=
  c.entries.find? fun e => decide (e.key = k)

def erase (c : TtlCache κ α) (k : κ) : TtlCache κ α :=
  { c with entries := c.entries.filter fun e => decide (e.key ≠ k) }

def isExpired (c : TtlCache κ α) (e : CacheEntry κ α) : Bool := decide (c.ttl < c.now - e.inserted)

/-- Looks a key up. An expired entry is taken out and not found. -/
def get (c : TtlCache κ α) (k : κ) : Option α × TtlCache κ α :=
  match c.find? k with
  | none => (none, c)
  | some e => if c.isExpired e then (none, c.erase k) else (some e.value, c)

/-- Whether a key is found. An expired entry is taken out. -/
def contains (c : TtlCache κ α) (k : κ) : Bool × TtlCache κ α :=
  let (found, c) := c.get k
  (found.isSome, c)

def trim (c : TtlCache κ α) : TtlCache κ α :=
  { c with entries := c.entries.drop (c.entries.length - c.capacity) }

/-- Puts a value in as the latest entry. A cache without room stays empty. -/
def insert (c : TtlCache κ α) (k : κ) (v : α) : TtlCache κ α :=
  if c.capacity = 0 then c
  else
    let kept := c.erase k
    trim { kept with entries := kept.entries ++ [⟨k, v, c.now⟩] }

def clear (c : TtlCache κ α) : TtlCache κ α := { c with entries := [] }

def advance (c : TtlCache κ α) (span : Nat) : TtlCache κ α := { c with now := c.now + span }

/-- The number of entries, expired ones included. -/
def size (c : TtlCache κ α) : Nat := c.entries.length

def isEmpty (c : TtlCache κ α) : Bool := c.entries.isEmpty

end TtlCache

end SqlAtlas
