/-!
# Finite maps

A finite map is a list of entries with distinct keys, in the order in which the keys first came in.
Everything that is said about a map is said through `get?`.
-/

namespace SqlAtlas

set_option autoImplicit false

structure Dict (κ α : Type) where
  entries : List (κ × α) := []
deriving DecidableEq, Repr

namespace Dict

variable {κ α : Type}

instance : Inhabited (Dict κ α) := ⟨{}⟩

/-- The keys, in the order in which they first came in. -/
def keys (d : Dict κ α) : List κ := d.entries.map (·.1)

def values (d : Dict κ α) : List α := d.entries.map (·.2)

def size (d : Dict κ α) : Nat := d.entries.length

def isEmpty (d : Dict κ α) : Bool := d.entries.isEmpty

variable [DecidableEq κ]

def find? (k : κ) : List (κ × α) → Option α
  | [] => none
  | e :: es => if e.1 = k then some e.2 else find? k es

/-- The entries with the value of a key replaced, or with the key at the end. -/
def put (k : κ) (v : α) : List (κ × α) → List (κ × α)
  | [] => [(k, v)]
  | e :: es => if e.1 = k then (k, v) :: es else e :: put k v es

def get? (d : Dict κ α) (k : κ) : Option α := find? k d.entries

def contains (d : Dict κ α) (k : κ) : Bool := (d.get? k).isSome

def insert (d : Dict κ α) (k : κ) (v : α) : Dict κ α := ⟨put k v d.entries⟩

def erase (d : Dict κ α) (k : κ) : Dict κ α := ⟨d.entries.filter fun e => decide (e.1 ≠ k)⟩

/-- Changes the value of a key; no value takes it out. -/
def alter (d : Dict κ α) (k : κ) (f : Option α → Option α) : Dict κ α :=
  match f (d.get? k) with
  | some v => d.insert k v
  | none => d.erase k

theorem find?_put (k k' : κ) (v : α) (es : List (κ × α)) :
    find? k' (put k v es) = if k = k' then some v else find? k' es := by
  induction es with
  | nil => simp [put, find?]
  | cons e es ih =>
    by_cases h : e.1 = k
    · by_cases hk : k = k' <;> simp [put, find?, h, hk]
    · by_cases hk : k = k'
      · subst hk; simp [put, find?, h, ih]
      · rw [put, if_neg h, find?, find?, ih]
        by_cases he : e.1 = k' <;> simp [he, hk]

theorem find?_filter_ne (k k' : κ) (es : List (κ × α)) :
    find? k' (es.filter fun e => decide (e.1 ≠ k)) = if k = k' then none else find? k' es := by
  induction es with
  | nil => simp [find?]
  | cons e es ih =>
    by_cases h : e.1 = k
    · by_cases hk : k = k'
      · simpa [h, hk, find?] using ih
      · have he : e.1 ≠ k' := by rw [h]; exact hk
        simpa [h, hk, find?, he] using ih
    · by_cases hk : k = k'
      · subst hk; simpa [h, find?] using ih
      · by_cases he : e.1 = k'
        · have hne : k' ≠ k := by rw [← he]; exact h
          simp [hk, find?, he, hne]
        · simpa [h, hk, find?, he] using ih

@[simp] theorem get?_empty (k : κ) : ({} : Dict κ α).get? k = none := rfl

theorem get?_insert (d : Dict κ α) (k k' : κ) (v : α) :
    (d.insert k v).get? k' = if k = k' then some v else d.get? k' :=
  find?_put k k' v d.entries

theorem get?_erase (d : Dict κ α) (k k' : κ) :
    (d.erase k).get? k' = if k = k' then none else d.get? k' :=
  find?_filter_ne k k' d.entries

theorem get?_alter (d : Dict κ α) (k k' : κ) (f : Option α → Option α) :
    (d.alter k f).get? k' = if k = k' then f (d.get? k) else d.get? k' := by
  unfold alter
  split
  · rename_i v h; simp [get?_insert, h]
  · rename_i h; simp [get?_erase, h]

end Dict

end SqlAtlas
