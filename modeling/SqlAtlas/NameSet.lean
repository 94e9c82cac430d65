import SqlAtlas.Name

/-!
# Sets of names

A set of names is a list in ascending order without repetitions.
-/

namespace SqlAtlas

set_option autoImplicit false

/-- A set of names, kept in ascending order. -/
abbrev NameSet := List Name

namespace NameSet

def insert (n : Name) : NameSet → NameSet
  | [] => [n]
  | m :: ms =>
    if n = m then m :: ms
    else if n.before m then n :: m :: ms
    else m :: insert n ms

@[simp] theorem mem_insert {a n : Name} {s : NameSet} : a ∈ insert n s ↔ a = n ∨ a ∈ s := by
  induction s with
  | nil => simp [insert]
  | cons m ms ih =>
    unfold insert
    split
    · rename_i h; subst h; simp
    · split
      · simp
      · simp [ih, or_left_comm]

def insertAll (names : List Name) (s : NameSet) : NameSet :=
  names.foldl (fun acc n => insert n acc) s

def ofList (names : List Name) : NameSet := insertAll names []

end NameSet

end SqlAtlas
