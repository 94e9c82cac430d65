import Mathlib.Data.String.Basic
import SqlAtlas.Index.Query
import SqlAtlas.Proofs.Arrangement

/-!
# The order of places

Places and locations are in a total order, so that sorting by them is well defined.
-/

namespace SqlAtlas

set_option autoImplicit false

open Text

theorem Text.Extent.upTo_iff (a b : Extent) : a.upTo b = true ↔
    a.line < b.line ∨ a.line = b.line ∧
      (a.first < b.first ∨ a.first = b.first ∧ a.last ≤ b.last) := by
  rw [upTo]
  split
  · rename_i h
    simp only [decide_eq_true_eq]
    omega
  · split
    · simp only [decide_eq_true_eq]
      omega
    · simp only [decide_eq_true_eq]
      omega

theorem Text.Extent.upTo_trans (a b c : Extent) (hab : a.upTo b = true) (hbc : b.upTo c = true) :
    a.upTo c = true := by
  rw [upTo_iff] at hab hbc ⊢
  omega

theorem Text.Extent.upTo_total (a b : Extent) : (a.upTo b || b.upTo a) = true := by
  rw [Bool.or_eq_true, upTo_iff, upTo_iff]
  omega

theorem Location.upTo_iff (a b : Location) : a.upTo b = true ↔
    a.uri < b.uri ∨ a.uri = b.uri ∧ a.place.upTo b.place = true := by
  rw [upTo]
  split
  · rename_i h
    simp [h]
  · rename_i h
    have h : a.uri = b.uri := not_not.mp h
    simp [h]

theorem Location.upTo_trans (a b c : Location) (hab : a.upTo b = true) (hbc : b.upTo c = true) :
    a.upTo c = true := by
  rw [upTo_iff] at hab hbc ⊢
  rcases hab with hab | ⟨hab, hplace⟩
  · rcases hbc with hbc | ⟨hbc, _⟩
    · exact .inl (lt_trans hab hbc)
    · exact .inl (hbc ▸ hab)
  · rcases hbc with hbc | ⟨hbc, hplace'⟩
    · exact .inl (hab.symm ▸ hbc)
    · exact .inr ⟨hab.trans hbc, Extent.upTo_trans _ _ _ hplace hplace'⟩

theorem Location.upTo_total (a b : Location) : (a.upTo b || b.upTo a) = true := by
  rw [Bool.or_eq_true, upTo_iff, upTo_iff]
  rcases lt_trichotomy a.uri b.uri with h | h | h
  · exact .inl (.inl h)
  · rcases Bool.or_eq_true _ _ ▸ Extent.upTo_total a.place b.place with hplace | hplace
    · exact .inl (.inr ⟨h, hplace⟩)
    · exact .inr (.inr ⟨h.symm, hplace⟩)
  · exact .inr (.inl h)

theorem Text.Extent.upTo_antisymm (a b : Extent) (hab : a.upTo b = true) (hba : b.upTo a = true) :
    a = b := by
  rw [upTo_iff] at hab hba
  cases a
  cases b
  simp only at hab hba
  congr 1 <;> omega

theorem Location.upTo_antisymm (a b : Location) (hab : a.upTo b = true) (hba : b.upTo a = true) :
    a = b := by
  rw [upTo_iff] at hab hba
  rcases hab with hab | ⟨huri, hab⟩
  · rcases hba with hba | ⟨huri, _⟩
    · exact absurd hba (lt_asymm hab)
    · exact absurd huri.symm (ne_of_lt hab)
  · rcases hba with hba | ⟨_, hba⟩
    · exact absurd huri.symm (ne_of_lt hba)
    · have hplace := Extent.upTo_antisymm _ _ hab hba
      cases a
      cases b
      cases huri
      cases hplace
      rfl

def Reference.upTo (a b : Reference) : Bool :=
  if a.place ≠ b.place then a.place.upTo b.place else !b.name.before a.name

theorem Reference.upTo_iff (a b : Reference) : a.upTo b = true ↔
    a.place ≠ b.place ∧ a.place.upTo b.place = true ∨
      a.place = b.place ∧ a.name.chars ≤ b.name.chars := by
  rw [upTo]
  split
  · rename_i h
    simp [h]
  · rename_i h
    have h : a.place = b.place := not_not.mp h
    simp [h, Name.before]

theorem Reference.upTo_trans (a b c : Reference) (hab : a.upTo b = true) (hbc : b.upTo c = true) :
    a.upTo c = true := by
  rw [upTo_iff] at hab hbc ⊢
  rcases hab with ⟨hne, hab⟩ | ⟨heq, hab⟩
  · rcases hbc with ⟨_, hbc⟩ | ⟨heq', _⟩
    · left
      refine ⟨?_, Extent.upTo_trans _ _ _ hab hbc⟩
      intro heq
      exact hne (Extent.upTo_antisymm _ _ hab (heq ▸ hbc))
    · exact .inl ⟨heq' ▸ hne, heq' ▸ hab⟩
  · rw [heq]
    rcases hbc with hbc | ⟨heq', hbc⟩
    · exact .inl hbc
    · exact .inr ⟨heq', le_trans hab hbc⟩

theorem Reference.upTo_total (a b : Reference) : (a.upTo b || b.upTo a) = true := by
  rw [Bool.or_eq_true, upTo_iff, upTo_iff]
  by_cases heq : a.place = b.place
  · rcases le_total a.name.chars b.name.chars with h | h
    · exact .inl (.inr ⟨heq, h⟩)
    · exact .inr (.inr ⟨heq.symm, h⟩)
  · rcases Bool.or_eq_true _ _ ▸ Extent.upTo_total a.place b.place with h | h
    · exact .inl (.inl ⟨heq, h⟩)
    · exact .inr (.inl ⟨Ne.symm heq, h⟩)

theorem sortLocations_eq_of_perm {ls ms : List Location} (h : ls.Perm ms) :
    sortLocations ls = sortLocations ms :=
  Arrangement.mergeSort_eq_of_perm Location.upTo_trans Location.upTo_total Location.upTo_antisymm h

end SqlAtlas
