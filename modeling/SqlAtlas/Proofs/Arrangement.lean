import Mathlib.Data.List.Dedup
import Mathlib.Data.List.Flatten
import Mathlib.Data.List.Perm.Basic
import Mathlib.Order.Defs.LinearOrder

/-!
# Rearranged lists

Two kinds of rearrangement occur in the answers of the index. A list that is put together from
blocks does not depend on the order of the blocks, nor on the blocks that are empty. A sorted list
keeps the order of equal entries, so that leaving entries out before or after sorting is the same.
An ascending list stays ascending when an entry is added at its place.
-/

namespace SqlAtlas.Arrangement

set_option autoImplicit false

variable {α β γ : Type}

theorem flatMap_filter_support (f : α → List β) (p : α → Bool) (l : List α)
    (h : ∀ a ∈ l, p a = false → f a = []) : (l.filter p).flatMap f = l.flatMap f := by
  induction l with
  | nil => rfl
  | cons a l ih =>
    have ih := ih fun b hb => h b (List.mem_cons_of_mem a hb)
    cases hp : p a with
    | true => rw [List.filter_cons_of_pos hp, List.flatMap_cons, List.flatMap_cons, ih]
    | false =>
      rw [List.filter_cons_of_neg (by simp [hp]), List.flatMap_cons, h a List.mem_cons_self hp, ih,
        List.nil_append]

/-- Blocks put together along two lists are the same up to order if the lists differ only where
the blocks are empty. -/
theorem flatMap_perm_of_support (f : α → List β) {l m : List α} (hl : l.Nodup) (hm : m.Nodup)
    (h : ∀ a, f a ≠ [] → (a ∈ l ↔ a ∈ m)) : (l.flatMap f).Perm (m.flatMap f) := by
  have hdrop : ∀ k : List α, (k.filter fun a => !(f a).isEmpty).flatMap f = k.flatMap f := by
    intro k
    apply flatMap_filter_support
    intro a _ ha
    simpa using ha
  rw [← hdrop l, ← hdrop m]
  apply List.Perm.flatMap_right
  rw [List.perm_ext_iff_of_nodup (hl.filter _) (hm.filter _)]
  intro a
  simp only [List.mem_filter, Bool.not_eq_true', List.isEmpty_eq_false_iff]
  exact and_congr_left fun ha => h a ha

/-- Of blocks along a list without repetitions, one is left if all others are left out. -/
theorem flatMap_single [DecidableEq α] (f : α → List β) {l : List α} (hl : l.Nodup) (a : α) :
    (l.flatMap fun b => if b = a then f b else []) = if a ∈ l then f a else [] := by
  induction l with
  | nil => rfl
  | cons b l ih =>
    obtain ⟨hb, hl⟩ := List.nodup_cons.mp hl
    rw [List.flatMap_cons, ih hl]
    by_cases h : b = a
    · subst h
      simp [hb]
    · simp [h, Ne.symm h]

theorem flatMap_comm_perm (f : α → β → List γ) (l : List α) (m : List β) :
    (l.flatMap fun a => m.flatMap fun b => f a b).Perm
      (m.flatMap fun b => l.flatMap fun a => f a b) := by
  induction l with
  | nil => simp
  | cons a l ih =>
    simp only [List.flatMap_cons]
    exact (ih.append_left _).trans (List.flatMap_append_perm m _ _)

/-- What gives the same entry of a list without repetitions is the same. -/
theorem eq_of_nodup_filterMap {f : α → Option β} {l : List α} (h : (l.filterMap f).Nodup) {a b : α}
    (ha : a ∈ l) (hb : b ∈ l) {c : β} (hfa : f a = some c) (hfb : f b = some c) : a = b := by
  induction l with
  | nil => cases ha
  | cons e l ih =>
    cases hfe : f e with
    | none =>
      rw [List.filterMap_cons_none hfe] at h
      have hne : ∀ {d}, f d = some c → d ≠ e := by
        rintro d hfd rfl
        rw [hfe] at hfd
        cases hfd
      exact ih h (List.mem_of_ne_of_mem (hne hfa) ha) (List.mem_of_ne_of_mem (hne hfb) hb)
    | some d =>
      rw [List.filterMap_cons_some hfe, List.nodup_cons] at h
      have hother : ∀ {x}, f x = some c → x ∈ l → d ≠ c := by
        rintro x hfx hx rfl
        exact h.1 (List.mem_filterMap.mpr ⟨x, hx, hfx⟩)
      rcases List.mem_cons.mp ha with rfl | ha'
      · rcases List.mem_cons.mp hb with rfl | hb'
        · rfl
        · exact absurd (Option.some.inj (hfe.symm.trans hfa)) (hother hfb hb')
      · rcases List.mem_cons.mp hb with rfl | hb'
        · exact absurd (Option.some.inj (hfe.symm.trans hfb)) (hother hfa ha')
        · exact ih h.2 ha' hb'

section Repetitions

variable [BEq α]

theorem nodup_eraseDups [LawfulBEq α] (l : List α) : l.eraseDups.Nodup := by
  match l with
  | [] => exact List.nodup_nil
  | a :: l =>
    rw [List.eraseDups_cons, List.nodup_cons]
    refine ⟨?_, nodup_eraseDups (l.filter fun b => !b == a)⟩
    rw [List.mem_eraseDups, List.mem_filter]
    rintro ⟨_, hne⟩
    simp at hne
termination_by l.length
decreasing_by
  exact Nat.lt_succ_of_le (List.length_filter_le _ _)

end Repetitions

section Sorting

variable {le : α → α → Bool}

/-- A cut of a list before which nothing is at or after `a`, and after which everything is, is
unique. -/
theorem cut_unique {a : α} {l₁ l₂ m₁ m₂ : List α} (h : l₁ ++ l₂ = m₁ ++ m₂)
    (hl₁ : ∀ b ∈ l₁, le a b = false) (hl₂ : ∀ b ∈ l₂, le a b = true)
    (hm₁ : ∀ b ∈ m₁, le a b = false) (hm₂ : ∀ b ∈ m₂, le a b = true) : l₁ = m₁ ∧ l₂ = m₂ := by
  have hfirst : ∀ {k₁ k₂ : List α}, (∀ b ∈ k₁, le a b = false) → (∀ b ∈ k₂, le a b = true) →
      (k₁ ++ k₂).filter (fun b => !le a b) = k₁ := by
    intro k₁ k₂ h₁ h₂
    rw [List.filter_append, List.filter_eq_self.mpr (by simpa using h₁),
      List.filter_eq_nil_iff.mpr (by simpa using h₂), List.append_nil]
  have hsame : l₁ = m₁ := by rw [← hfirst hl₁ hl₂, h, hfirst hm₁ hm₂]
  subst hsame
  exact ⟨rfl, List.append_cancel_left h⟩

variable (trans : ∀ a b c, le a b = true → le b c = true → le a c = true)
  (total : ∀ a b, (le a b || le b a) = true)

include trans total

/-- Sorting a list with one more entry in front puts that entry before all that are at or after
it. -/
theorem mergeSort_cons_cut (a : α) (l : List α) : ∃ l₁ l₂, (a :: l).mergeSort le = l₁ ++ a :: l₂ ∧
    l.mergeSort le = l₁ ++ l₂ ∧ (∀ b ∈ l₁, le a b = false) ∧ ∀ b ∈ l₂, le a b = true := by
  obtain ⟨l₁, l₂, hcons, hl, hbefore⟩ := List.mergeSort_cons trans total a l
  refine ⟨l₁, l₂, hcons, hl, fun b hb => by simpa using hbefore b hb, ?_⟩
  have hsorted := List.pairwise_mergeSort trans total (a :: l)
  rw [hcons, List.pairwise_append] at hsorted
  exact (List.pairwise_cons.mp hsorted.2.1).1

theorem filter_mergeSort (p : α → Bool) (l : List α) :
    (l.mergeSort le).filter p = (l.filter p).mergeSort le := by
  induction l with
  | nil => simp
  | cons a l ih =>
    obtain ⟨l₁, l₂, hcons, hl, hbefore, hafter⟩ := mergeSort_cons_cut trans total a l
    rw [hl, List.filter_append] at ih
    rw [hcons, List.filter_append]
    cases hp : p a with
    | false =>
      rw [List.filter_cons_of_neg (by simp [hp]), List.filter_cons_of_neg (by simp [hp]), ih]
    | true =>
      rw [List.filter_cons_of_pos hp, List.filter_cons_of_pos hp]
      obtain ⟨m₁, m₂, hcons', hm, hbefore', hafter'⟩ :=
        mergeSort_cons_cut trans total a (l.filter p)
      obtain ⟨rfl, rfl⟩ := cut_unique (ih.trans hm)
        (fun b hb => hbefore b (List.mem_of_mem_filter hb))
        (fun b hb => hafter b (List.mem_of_mem_filter hb)) hbefore' hafter'
      exact hcons'.symm

theorem mergeSort_congr {le' : α → α → Bool}
    (trans' : ∀ a b c, le' a b = true → le' b c = true → le' a c = true)
    (total' : ∀ a b, (le' a b || le' b a) = true) (l : List α)
    (h : ∀ a ∈ l, ∀ b ∈ l, le a b = le' a b) : l.mergeSort le = l.mergeSort le' := by
  induction l with
  | nil => simp
  | cons a l ih =>
    have ih := ih fun b hb c hc => h b (List.mem_cons_of_mem a hb) c (List.mem_cons_of_mem a hc)
    obtain ⟨l₁, l₂, hcons, hl, hbefore, hafter⟩ := mergeSort_cons_cut trans total a l
    obtain ⟨m₁, m₂, hcons', hm, hbefore', hafter'⟩ := mergeSort_cons_cut trans' total' a l
    have hsame : ∀ b ∈ m₁ ++ m₂, le a b = le' a b := by
      intro b hb
      rw [← hm, List.mem_mergeSort] at hb
      exact h a List.mem_cons_self b (List.mem_cons_of_mem a hb)
    obtain ⟨rfl, rfl⟩ := cut_unique (hl.symm.trans (ih.trans hm)) hbefore hafter
      (fun b hb => (hsame b (List.mem_append_left _ hb)).trans (hbefore' b hb))
      (fun b hb => (hsame b (List.mem_append_right _ hb)).trans (hafter' b hb))
    rw [hcons, hcons']

/-- Two orders of the same entries are sorted alike if no two entries are equal in rank. -/
theorem mergeSort_eq_of_perm (antisymm : ∀ a b, le a b = true → le b a = true → a = b)
    {l m : List α} (h : l.Perm m) : l.mergeSort le = m.mergeSort le := by
  apply List.Perm.eq_of_pairwise (fun a b _ _ => antisymm a b)
    (List.pairwise_mergeSort trans total l) (List.pairwise_mergeSort trans total m)
  exact (List.mergeSort_perm l le).trans (h.trans (List.mergeSort_perm m le).symm)

end Sorting

/-- A list in the order of a key is known from its entries for each key. -/
theorem eq_of_filter_key {κ : Type} [PartialOrder κ] [DecidableEq κ] (key : α → κ) {l m : List α}
    (hl : l.Pairwise fun a b => key a ≤ key b) (hm : m.Pairwise fun a b => key a ≤ key b)
    (h : ∀ k, l.filter (fun a => decide (key a = k)) = m.filter fun a => decide (key a = k)) :
    l = m := by
  induction l generalizing m with
  | nil =>
    cases m with
    | nil => rfl
    | cons b m => simpa using h (key b)
  | cons a l ih =>
    cases m with
    | nil => simpa using h (key a)
    | cons b m =>
      have hmem : ∀ c, c ∈ a :: l ↔ c ∈ b :: m := by
        intro c
        simpa using congrArg (c ∈ ·) (h (key c))
      obtain ⟨hfirst, hsorted⟩ := List.pairwise_cons.mp hl
      obtain ⟨hfirst', hsorted'⟩ := List.pairwise_cons.mp hm
      -- each head stands in the other list, so neither key is before the other
      have hab : key a ≤ key b := by
        rcases List.mem_cons.mp ((hmem b).mpr List.mem_cons_self) with hb | hb
        · exact le_of_eq (congrArg key hb.symm)
        · exact hfirst b hb
      have hba : key b ≤ key a := by
        rcases List.mem_cons.mp ((hmem a).mp List.mem_cons_self) with ha | ha
        · exact le_of_eq (congrArg key ha.symm)
        · exact hfirst' a ha
      have hkey : key a = key b := le_antisymm hab hba
      have hheads := h (key a)
      rw [List.filter_cons_of_pos (by simp), List.filter_cons_of_pos (by simp [hkey])] at hheads
      obtain rfl : a = b := (List.cons.inj hheads).1
      have hrest : ∀ k, l.filter (fun c => decide (key c = k)) =
          m.filter fun c => decide (key c = k) := by
        intro k
        have hk := h k
        by_cases hak : key a = k
        · rw [List.filter_cons_of_pos (by simp [hak]), List.filter_cons_of_pos (by simp [hak])] at hk
          exact (List.cons.inj hk).2
        · rwa [List.filter_cons_of_neg (by simp [hak]), List.filter_cons_of_neg (by simp [hak])] at hk
      rw [ih hsorted hsorted' hrest]

section Ascending

variable [DecidableEq α]

def insertAscending (lt : α → α → Bool) (a : α) : List α → List α
  | [] => [a]
  | b :: l => if a = b then b :: l else if lt a b then a :: b :: l else b :: insertAscending lt a l

variable {lt : α → α → Bool}

theorem mem_insertAscending {a b : α} {l : List α} :
    b ∈ insertAscending lt a l ↔ b = a ∨ b ∈ l := by
  induction l with
  | nil => simp [insertAscending]
  | cons c l ih =>
    rw [insertAscending]
    split
    · rename_i h
      subst h
      simp
    · split
      · simp
      · rw [List.mem_cons, ih, List.mem_cons, or_left_comm]

theorem pairwise_insertAscending (htrans : ∀ a b c, lt a b = true → lt b c = true → lt a c = true)
    (htotal : ∀ a b, a ≠ b → lt a b = false → lt b a = true) {l : List α}
    (h : l.Pairwise fun a b => lt a b = true) (a : α) :
    (insertAscending lt a l).Pairwise fun a b => lt a b = true := by
  induction l with
  | nil => exact List.pairwise_singleton _ a
  | cons b l ih =>
    obtain ⟨hb, hl⟩ := List.pairwise_cons.mp h
    rw [insertAscending]
    split
    · exact h
    · rename_i hne
      split
      · rename_i hlt
        refine List.pairwise_cons.mpr ⟨?_, h⟩
        intro c hc
        rcases List.mem_cons.mp hc with rfl | hc
        · exact hlt
        · exact htrans a b c hlt (hb c hc)
      · rename_i hge
        refine List.pairwise_cons.mpr ⟨?_, ih hl⟩
        intro c hc
        rcases mem_insertAscending.mp hc with rfl | hc
        · exact htotal c b hne (by simpa using hge)
        · exact hb c hc

omit [DecidableEq α] in
theorem eq_of_ascending {lt : α → α → Prop} (asymm : ∀ a b, lt a b → ¬lt b a) {l m : List α}
    (hl : l.Pairwise lt) (hm : m.Pairwise lt) (h : ∀ a, a ∈ l ↔ a ∈ m) : l = m := by
  have hnodup : ∀ {k : List α}, k.Pairwise lt → k.Nodup := by
    intro k hk
    refine hk.imp ?_
    rintro a b hab rfl
    exact asymm a a hab hab
  apply List.Perm.eq_of_pairwise (fun a b _ _ hab hba => absurd hba (asymm a b hab)) hl hm
  exact (List.perm_ext_iff_of_nodup (hnodup hl) (hnodup hm)).mpr h

end Ascending

end SqlAtlas.Arrangement
