import Mathlib.Data.String.Basic
import SqlAtlas.NameSet
import SqlAtlas.Proofs.Arrangement

/-!
# Sets of names stay ascending
-/

namespace SqlAtlas.NameSet

set_option autoImplicit false

/-- The names come in ascending order, hence each once. -/
def Ascending (s : NameSet) : Prop := s.Pairwise fun a b => a.before b = true

theorem insert_eq (n : Name) (s : NameSet) :
    insert n s = Arrangement.insertAscending Name.before n s := by
  induction s with
  | nil => rfl
  | cons m s ih => rw [insert, Arrangement.insertAscending, ih]

theorem before_trans (a b c : Name) (hab : a.before b = true) (hbc : b.before c = true) :
    a.before c = true := by
  simp only [Name.before, decide_eq_true_eq] at hab hbc ⊢
  exact lt_trans hab hbc

theorem before_of_not_before (a b : Name) (hne : a ≠ b) (h : a.before b = false) :
    b.before a = true := by
  simp only [Name.before, decide_eq_true_eq, decide_eq_false_iff_not] at h ⊢
  have hchars : a.chars ≠ b.chars := fun heq => hne (by cases a; cases b; cases heq; rfl)
  exact lt_of_le_of_ne (not_lt.mp h) hchars.symm

theorem not_before_self (a : Name) : a.before a = false := by
  simp [Name.before]

theorem Ascending.nodup {s : NameSet} (h : Ascending s) : s.Nodup := by
  refine h.imp ?_
  rintro a b hab rfl
  rw [not_before_self] at hab
  cases hab

theorem Ascending.insert {s : NameSet} (h : Ascending s) (n : Name) : Ascending (insert n s) := by
  rw [insert_eq]
  exact Arrangement.pairwise_insertAscending before_trans before_of_not_before h n

theorem Ascending.insertAll {s : NameSet} (h : Ascending s) (names : List Name) :
    Ascending (insertAll names s) := by
  induction names generalizing s with
  | nil => exact h
  | cons n names ih => exact ih (h.insert n)

theorem ascending_nil : Ascending [] := List.Pairwise.nil

theorem Ascending.ext {s t : NameSet} (hs : Ascending s) (ht : Ascending t)
    (h : ∀ n, n ∈ s ↔ n ∈ t) : s = t := by
  apply Arrangement.eq_of_ascending _ hs ht h
  intro a b hab hba
  have hself := before_trans a b a hab hba
  rw [not_before_self] at hself
  cases hself

@[simp] theorem mem_insertAll {a : Name} {names : List Name} {s : NameSet} :
    a ∈ insertAll names s ↔ a ∈ names ∨ a ∈ s := by
  induction names generalizing s with
  | nil => simp [insertAll]
  | cons n names ih =>
    change a ∈ insertAll names (insert n s) ↔ _
    rw [ih, mem_insert, List.mem_cons, or_left_comm, or_assoc]

end SqlAtlas.NameSet
