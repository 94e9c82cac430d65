import Mathlib.Data.List.TakeWhile
import SqlAtlas.Proofs.Text.Block
import SqlAtlas.Text.Byte

/-!
# Rows of a range

A range of bytes is cut into rows at the commas of plain code that stand outside parentheses. The rows
are what is left between these commas when the blanks around it are trimmed away, and that determines
them.
-/

namespace SqlAtlas.Text

set_option autoImplicit false

/-! ### Cuts -/

section

variable {start stop i : Nat} {marks : List Nat} {r : Span}

theorem cutAt_marked (hsorted : marks.Pairwise (· < ·)) :
    (cutAt start stop marks).Pairwise fun r t => ∃ i ∈ marks, r.stop ≤ i ∧ i < t.start := by
  induction marks generalizing start with
  | nil => exact List.pairwise_singleton _ _
  | cons i marks ih =>
    obtain ⟨hfirst, hsorted⟩ := List.pairwise_cons.mp hsorted
    refine List.pairwise_cons.mpr ⟨fun t ht => ⟨i, List.mem_cons_self, Nat.le_refl i, ?_⟩, ?_⟩
    · exact start_le_of_mem_cutAt hsorted (fun j hj => hfirst j hj) ht
    · refine (ih hsorted).imp ?_
      rintro r t ⟨j, hj, hbetween⟩
      exact ⟨j, List.mem_cons_of_mem i hj, hbetween⟩

theorem not_mark_of_mem_cutAt (hsorted : marks.Pairwise (· < ·)) (hr : r ∈ cutAt start stop marks)
    (hfrom : r.start ≤ i) (hto : i < r.stop) : i ∉ marks := by
  induction marks generalizing start with
  | nil => exact List.not_mem_nil
  | cons j marks ih =>
    obtain ⟨hfirst, hrest⟩ := List.pairwise_cons.mp hsorted
    intro hi
    rcases List.mem_cons.mp hr with rfl | hr
    · rcases List.mem_cons.mp hi with rfl | hi
      · exact Nat.lt_irrefl i hto
      · exact Nat.lt_asymm hto (hfirst i hi)
    · rcases List.mem_cons.mp hi with rfl | hi
      · have hlater := start_le_of_mem_cutAt hrest (fun j hj => hfirst j hj) hr
        omega
      · exact ih hrest hr hi

theorem exists_mem_cutAt (hfrom : start ≤ i) (hto : i < stop) (hmark : i ∉ marks) :
    ∃ r ∈ cutAt start stop marks, r.start ≤ i ∧ i < r.stop := by
  induction marks generalizing start with
  | nil => exact ⟨⟨start, stop⟩, List.mem_singleton_self _, hfrom, hto⟩
  | cons j marks ih =>
    rw [List.mem_cons, not_or] at hmark
    rcases Nat.lt_or_gt_of_ne hmark.1 with hlt | hgt
    · exact ⟨⟨start, j⟩, List.mem_cons_self, hfrom, hlt⟩
    · have hnext : j + 1 ≤ i := hgt
      obtain ⟨r, hr, hin⟩ := ih hnext hmark.2
      exact ⟨r, List.mem_cons_of_mem _ hr, hin⟩

theorem start_le_stop_of_mem_cutAt (hle : start ≤ stop) (hsorted : marks.Pairwise (· < ·))
    (hmarks : ∀ i ∈ marks, start ≤ i ∧ i < stop) (hr : r ∈ cutAt start stop marks) :
    r.start ≤ r.stop := by
  induction marks generalizing start with
  | nil =>
    cases List.mem_singleton.mp hr
    exact hle
  | cons j marks ih =>
    obtain ⟨hfirst, hsorted⟩ := List.pairwise_cons.mp hsorted
    obtain ⟨hge, hlt⟩ := hmarks j List.mem_cons_self
    rcases List.mem_cons.mp hr with rfl | hr
    · exact hge
    · exact ih hlt hsorted (fun i hi => ⟨hfirst i hi, (hmarks i (List.mem_cons_of_mem j hi)).2⟩) hr

end

/-! ### Trimming -/

section

variable {α : Type} (blank : α → Bool)

/-- A list is what trimming keeps of it, between the blanks that it takes away. -/
theorem exists_trimmed (l : List α) : ∃ lead kept tail, l = lead ++ (kept ++ tail) ∧
    l.dropWhile blank = kept ++ tail ∧ ((l.dropWhile blank).reverse.dropWhile blank).length = kept.length ∧
    (∀ a ∈ lead, blank a = true) ∧ (∀ a ∈ tail, blank a = true) ∧
    (∀ a ∈ kept.head?, blank a = false) ∧ ∀ a ∈ kept.getLast?, blank a = false := by
  have hfront : ∀ (l : List α), ∀ a ∈ (l.dropWhile blank).head?, blank a = false := by
    intro l a ha
    have hstop := List.head?_dropWhile_not blank l
    rwa [Option.mem_def.mp ha] at hstop
  have hsplit : l.dropWhile blank = ((l.dropWhile blank).reverse.dropWhile blank).reverse ++
      ((l.dropWhile blank).reverse.takeWhile blank).reverse := by
    rw [← List.reverse_append, List.takeWhile_append_dropWhile, List.reverse_reverse]
  refine ⟨l.takeWhile blank, ((l.dropWhile blank).reverse.dropWhile blank).reverse,
    ((l.dropWhile blank).reverse.takeWhile blank).reverse, ?_, hsplit, (List.length_reverse ..).symm,
    fun a => List.mem_takeWhile_imp, fun a ha => List.mem_takeWhile_imp (List.mem_reverse.mp ha), ?_, ?_⟩
  · rw [← hsplit, List.takeWhile_append_dropWhile]
  · intro a ha
    refine hfront l a ?_
    rw [hsplit, List.head?_append, Option.mem_def.mp ha]
    rfl
  · intro a ha
    rw [List.getLast?_reverse] at ha
    exact hfront _ a ha

end

namespace Byte

variable {bytes : List UInt8} {s : Span} {i : Nat}

def BlankAt (bytes : List UInt8) (i : Nat) : Prop := ∃ b, bytes[i]? = some b ∧ isBlank b = true

def SolidAt (bytes : List UInt8) (i : Nat) : Prop := ∃ b, bytes[i]? = some b ∧ isBlank b = false

theorem SolidAt.not_blankAt (h : SolidAt bytes i) : ¬ BlankAt bytes i := by
  rintro ⟨b, hb, hblank⟩
  obtain ⟨c, hc, hsolid⟩ := h
  cases hb.symm.trans hc
  rw [hblank] at hsolid
  cases hsolid

/-- Of a range, trimming takes the blanks in front of its first solid byte and behind its last one. -/
structure Trims (bytes : List UInt8) (s t : Span) : Prop where
  within : s.start ≤ t.start ∧ t.start ≤ t.stop ∧ t.stop ≤ s.stop
  ends : t.start < t.stop → SolidAt bytes t.start ∧ SolidAt bytes (t.stop - 1)
  rest : ∀ i, s.start ≤ i → i < s.stop → ¬(t.start ≤ i ∧ i < t.stop) → BlankAt bytes i

theorem trims_trim (hle : s.start ≤ s.stop) (hstop : s.stop ≤ bytes.length) :
    Trims bytes s (trim bytes s) := by
  obtain ⟨lead, kept, tail, hwithin, hrest, hkept, hlead, htail, hhead, hlast⟩ :=
    exists_trimmed isBlank ((bytes.take s.stop).drop s.start)
  have hlength := congrArg List.length hwithin
  have hrestLength := congrArg List.length hrest
  simp only [List.length_drop, List.length_take, List.length_append, Nat.min_eq_left hstop] at hlength
  simp only [List.length_append] at hrestLength
  have htrim : trim bytes s = ⟨s.start + lead.length, s.start + lead.length + kept.length⟩ := by
    simp only [trim, Nat.min_eq_left hstop, hkept, Span.mk.injEq, hrestLength, List.length_drop,
      List.length_take]
    omega
  have hget : ∀ k, k < s.stop - s.start → bytes[s.start + k]? = (lead ++ (kept ++ tail))[k]? := by
    intro k hk
    rw [← hwithin, List.getElem?_drop, List.getElem?_take_of_lt (by omega)]
  rw [htrim]
  constructor
  · dsimp only
    omega
  · dsimp only
    intro hfull
    constructor
    · obtain ⟨b, hb⟩ : ∃ b, kept.head? = some b := by
        cases kept with
        | nil => simp at hfull
        | cons b kept => exact ⟨b, rfl⟩
      refine ⟨b, ?_, hhead b hb⟩
      rw [hget _ (by omega), List.getElem?_append_right (Nat.le_refl _), Nat.sub_self,
        List.getElem?_append_left (by omega), ← List.head?_eq_getElem?, hb]
    · obtain ⟨b, hb⟩ : ∃ b, kept.getLast? = some b := by
        cases kept with
        | nil => simp at hfull
        | cons b kept => exact ⟨_, List.getLast?_eq_some_getLast (List.cons_ne_nil b kept)⟩
      refine ⟨b, ?_, hlast b hb⟩
      have hplace : s.start + lead.length + kept.length - 1 = s.start + (lead.length + (kept.length - 1)) := by
        omega
      rw [hplace, hget _ (by omega), List.getElem?_append_right (Nat.le_add_right _ _),
        Nat.add_sub_cancel_left, List.getElem?_append_left (by omega), ← List.getLast?_eq_getElem?, hb]
  · dsimp only
    intro i hfrom hto hout
    obtain ⟨k, rfl⟩ := Nat.exists_eq_add_of_le hfrom
    have hk : k < s.stop - s.start := by omega
    rcases Nat.lt_or_ge k lead.length with hlt | hge
    · refine ⟨lead[k], ?_, hlead _ (List.getElem_mem hlt)⟩
      rw [hget k hk, List.getElem?_append_left hlt, List.getElem?_eq_getElem hlt]
    · have htailIndex : k - lead.length - kept.length < tail.length := by omega
      refine ⟨tail[k - lead.length - kept.length], ?_, htail _ (List.getElem_mem htailIndex)⟩
      rw [hget k hk, List.getElem?_append_right hge, List.getElem?_append_right (by omega),
        List.getElem?_eq_getElem htailIndex]

/-! ### Separators -/

/-- The depth in parentheses in front of a place, from `depth` on. A closing parenthesis without an
opening one leaves it at zero. -/
def levelBefore (depth : Nat) (code : List (Nat × UInt8)) (i : Nat) : Nat :=
  (code.filter fun p => decide (p.1 < i)).foldl (fun d p => levelAfter d p.2) depth

/-- A comma of plain code outside parentheses. -/
def Separates (bytes : List UInt8) (s : Span) (i : Nat) : Prop :=
  (i, ','.toUInt8) ∈ codeIn bytes s ∧ levelBefore 0 (codeIn bytes s) i = 0

abbrev Ascending (code : List (Nat × UInt8)) : Prop := code.Pairwise fun p q => p.1 < q.1

section

variable {depth j : Nat} {b : UInt8} {code : List (Nat × UInt8)}

theorem levelBefore_cons_of_lt (h : j < i) :
    levelBefore depth ((j, b) :: code) i = levelBefore (levelAfter depth b) code i := by
  rw [levelBefore, List.filter_cons_of_pos (by simpa using h), List.foldl_cons, levelBefore]

theorem levelBefore_of_le (h : ∀ p ∈ code, i ≤ p.1) : levelBefore depth code i = depth := by
  rw [levelBefore, List.filter_eq_nil_iff.mpr, List.foldl_nil]
  intro p hp
  simpa using h p hp

theorem mem_commasIn_iff (hcode : Ascending code) :
    i ∈ commasIn depth code ↔ (i, ','.toUInt8) ∈ code ∧ levelBefore depth code i = 0 := by
  induction code generalizing depth with
  | nil => simp [commasIn]
  | cons p code ih =>
    obtain ⟨j, b⟩ := p
    obtain ⟨hlater, hcode⟩ := List.pairwise_cons.mp hcode
    have hstep : i ∈ commasIn depth ((j, b) :: code) ↔
        (b = ','.toUInt8 ∧ depth = 0 ∧ i = j) ∨ i ∈ commasIn (levelAfter depth b) code := by
      rw [commasIn]
      split
      · rename_i hcomma
        obtain ⟨rfl, rfl⟩ : b = ','.toUInt8 ∧ depth = 0 := by simpa using hcomma
        simp [show levelAfter 0 ','.toUInt8 = 0 from rfl]
      · rename_i hcomma
        simp only [Bool.and_eq_true, beq_iff_eq] at hcomma
        exact ⟨.inr, fun h => h.resolve_left fun h => hcomma ⟨h.1, h.2.1⟩⟩
    have hrest : (i, ','.toUInt8) ∈ code → j < i := fun hmem => hlater _ hmem
    rw [hstep, ih hcode, List.mem_cons, Prod.mk.injEq]
    rcases Nat.lt_trichotomy i j with hlt | rfl | hgt
    · have hnone : (i, ','.toUInt8) ∉ code := fun hmem => by have := hrest hmem; omega
      have hne : i ≠ j := Nat.ne_of_lt hlt
      simp [hnone, hne]
    · have hnone : (i, ','.toUInt8) ∉ code := fun hmem => Nat.lt_irrefl i (hrest hmem)
      have hlevel : levelBefore depth ((i, b) :: code) i = depth := by
        apply levelBefore_of_le
        rintro p hp
        rcases List.mem_cons.mp hp with rfl | hp
        · exact Nat.le_refl i
        · exact Nat.le_of_lt (hlater p hp)
      simp only [hnone, hlevel, false_and, or_false, and_true, true_and, eq_comm (a := ','.toUInt8)]
    · have hne : i ≠ j := Nat.ne_of_gt hgt
      simp only [hne, levelBefore_cons_of_lt hgt, and_false, false_and, false_or]

theorem sublist_commasIn (depth : Nat) (code : List (Nat × UInt8)) :
    ((commasIn depth code).map fun i => (i, ','.toUInt8)).Sublist code := by
  induction code generalizing depth with
  | nil => exact List.Sublist.refl _
  | cons p code ih =>
    obtain ⟨i, b⟩ := p
    rw [commasIn]
    split
    · rename_i hcomma
      rw [Bool.and_eq_true, beq_iff_eq] at hcomma
      rw [hcomma.1, List.map_cons]
      exact (ih depth).cons_cons _
    · exact (ih _).cons _

theorem commasIn_ascending (hcode : Ascending code) (depth : Nat) :
    (commasIn depth code).Pairwise (· < ·) :=
  List.pairwise_map (f := fun i => (i, ','.toUInt8)).mp (hcode.sublist (sublist_commasIn depth code))

theorem marked_ascending (offset : Nat) (ps : List (UInt8 × Bool)) :
    Ascending (marked offset ps) ∧ ∀ p ∈ marked offset ps, offset ≤ p.1 := by
  induction ps generalizing offset with
  | nil => exact ⟨List.Pairwise.nil, nofun⟩
  | cons p ps ih =>
    obtain ⟨b, mark⟩ := p
    obtain ⟨hascending, hfrom⟩ := ih (offset + 1)
    have hlater : ∀ p ∈ marked (offset + 1) ps, offset ≤ p.1 := fun p hp => Nat.le_of_lt (hfrom p hp)
    rw [marked]
    split
    · refine ⟨List.pairwise_cons.mpr ⟨hfrom, hascending⟩, ?_⟩
      rintro p hp
      rcases List.mem_cons.mp hp with rfl | hp
      · exact Nat.le_refl offset
      · exact hlater p hp
    · exact ⟨hascending, hlater⟩

theorem codeIn_ascending (bytes : List UInt8) (s : Span) : Ascending (codeIn bytes s) :=
  (marked_ascending _ _).1.sublist (List.takeWhile_sublist _)

theorem mem_codeIn_within (h : (i, b) ∈ codeIn bytes s) : s.start ≤ i ∧ i < s.stop :=
  ⟨(marked_ascending _ _).2 _ (List.takeWhile_subset _ h), by simpa using List.mem_takeWhile_imp h⟩

end

theorem mem_commasIn_codeIn : i ∈ commasIn 0 (codeIn bytes s) ↔ Separates bytes s i :=
  mem_commasIn_iff (codeIn_ascending bytes s)

theorem Separates.within (h : Separates bytes s i) : s.start ≤ i ∧ i < s.stop := mem_codeIn_within h.1

/-! ### Rows -/

/-- The rows of a range. They stand in it in this order, a separator between any two of them and none in
any. They hold some byte, start and end with one that is no blank, and leave out only separators and
blanks. -/
structure Rows (bytes : List UInt8) (s : Span) (rows : List Span) : Prop where
  within : ∀ r ∈ rows, s.start ≤ r.start ∧ r.start < r.stop ∧ r.stop ≤ s.stop
  apart : rows.Pairwise fun r t => ∃ i, r.stop ≤ i ∧ i < t.start ∧ Separates bytes s i
  whole : ∀ r ∈ rows, ∀ i, r.start ≤ i → i < r.stop → ¬ Separates bytes s i
  ends : ∀ r ∈ rows, SolidAt bytes r.start ∧ SolidAt bytes (r.stop - 1)
  rest : ∀ i, s.start ≤ i → i < s.stop → (∀ r ∈ rows, ¬(r.start ≤ i ∧ i < r.stop)) →
    Separates bytes s i ∨ BlankAt bytes i

theorem rows_splitTopLevel (hle : s.start ≤ s.stop) (hstop : s.stop ≤ bytes.length) :
    Rows bytes s (splitTopLevel bytes s) := by
  have hsorted := commasIn_ascending (codeIn_ascending bytes s) 0
  have hmarks : ∀ i ∈ commasIn 0 (codeIn bytes s), s.start ≤ i ∧ i < s.stop := fun i hi =>
    (mem_commasIn_codeIn.mp hi).within
  have hpiece : ∀ p ∈ cutAt s.start s.stop (commasIn 0 (codeIn bytes s)),
      s.start ≤ p.start ∧ p.stop ≤ s.stop ∧ Trims bytes p (trim bytes p) := by
    intro p hp
    have hfrom := start_le_of_mem_cutAt hsorted (fun i hi => (hmarks i hi).1) hp
    have hto := stop_le_of_mem_cutAt (Nat.le_refl _) (fun i hi => (hmarks i hi).2.le) hp
    exact ⟨hfrom, hto, trims_trim (start_le_stop_of_mem_cutAt hle hsorted hmarks hp) (hto.trans hstop)⟩
  have hmem : ∀ r, r ∈ splitTopLevel bytes s ↔ r.start < r.stop ∧
      ∃ p ∈ cutAt s.start s.stop (commasIn 0 (codeIn bytes s)), trim bytes p = r := by
    intro r
    rw [splitTopLevel, Nat.min_eq_left hstop, List.mem_filter, List.mem_map, and_comm]
    simp [Span.isEmpty]
  constructor
  case within =>
    intro r hr
    obtain ⟨hfull, p, hp, rfl⟩ := (hmem r).mp hr
    obtain ⟨hfrom, hto, htrims⟩ := hpiece p hp
    have hin := htrims.within
    omega
  case apart =>
    rw [splitTopLevel, Nat.min_eq_left hstop]
    refine List.Pairwise.filter _ (List.pairwise_map.mpr ?_)
    refine (cutAt_marked hsorted).imp_of_mem ?_
    rintro p q hp hq ⟨i, hi, hbefore, hafter⟩
    have hin := (hpiece p hp).2.2.within
    have hin' := (hpiece q hq).2.2.within
    exact ⟨i, by omega, by omega, mem_commasIn_codeIn.mp hi⟩
  case whole =>
    intro r hr i hfrom hto hseparates
    obtain ⟨-, p, hp, rfl⟩ := (hmem r).mp hr
    have hin := (hpiece p hp).2.2.within
    exact not_mark_of_mem_cutAt hsorted hp (by omega) (by omega) (mem_commasIn_codeIn.mpr hseparates)
  case ends =>
    intro r hr
    obtain ⟨hfull, p, hp, rfl⟩ := (hmem r).mp hr
    exact (hpiece p hp).2.2.ends hfull
  case rest =>
    intro i hfrom hto hout
    rw [← mem_commasIn_codeIn, or_iff_not_imp_left]
    intro hmark
    obtain ⟨p, hp, hin⟩ := exists_mem_cutAt hfrom hto hmark
    refine (hpiece p hp).2.2.rest i hin.1 hin.2 ?_
    intro hrow
    exact hout _ ((hmem _).mpr ⟨by omega, p, hp, rfl⟩) hrow

section

variable {rows rows' : List Span} {r r' : Span}

theorem Rows.exists_mem (h : Rows bytes s rows) (hfrom : s.start ≤ i) (hto : i < s.stop)
    (hsolid : SolidAt bytes i) (hmark : ¬ Separates bytes s i) :
    ∃ r ∈ rows, r.start ≤ i ∧ i < r.stop := by
  by_contra hnone
  rcases h.rest i hfrom hto fun r hr hin => hnone ⟨r, hr, hin⟩ with hsep | hblank
  · exact hmark hsep
  · exact hsolid.not_blankAt hblank

theorem Rows.separated (h : Rows bytes s rows) (hr : r ∈ rows) (hr' : r' ∈ rows) : r = r' ∨
    (∃ i, r.stop ≤ i ∧ i < r'.start ∧ Separates bytes s i) ∨
      ∃ i, r'.stop ≤ i ∧ i < r.start ∧ Separates bytes s i := by
  have hapart := h.apart
  obtain ⟨front, back, rfl⟩ := List.append_of_mem hr
  obtain ⟨-, hback, hfront⟩ := List.pairwise_append.mp hapart
  rcases List.mem_append.mp hr' with hr' | hr'
  · exact .inr (.inr (hfront r' hr' r List.mem_cons_self))
  · rcases List.mem_cons.mp hr' with rfl | hr'
    · exact .inl rfl
    · exact .inr (.inl ((List.pairwise_cons.mp hback).1 r' hr'))

/-- A row of one reading of a range starts and ends with the row of another one that it shares a byte
with. -/
theorem Rows.eq_of_meets (h : Rows bytes s rows) (h' : Rows bytes s rows') (hr : r ∈ rows)
    (hr' : r' ∈ rows') (hfrom : r.start ≤ i ∧ r'.start ≤ i) (hto : i < r.stop ∧ i < r'.stop) :
    r'.start ≤ r.start ∧ r.stop ≤ r'.stop := by
  obtain ⟨hstart, hfull, hstop⟩ := h.within r hr
  obtain ⟨hfirst, hlast⟩ := h.ends r hr
  have hinside : ∀ k, r.start ≤ k → k < r.stop → SolidAt bytes k → r'.start ≤ k ∧ k < r'.stop := by
    intro k hkfrom hkto hsolid
    obtain ⟨t, ht, hin⟩ := h'.exists_mem (Nat.le_trans hstart hkfrom) (Nat.lt_of_lt_of_le hkto hstop)
      hsolid (h.whole r hr k hkfrom hkto)
    -- a separator between the two rows would stand inside the row `r`
    rcases h'.separated ht hr' with rfl | ⟨m, hm, hm', hsep⟩ | ⟨m, hm, hm', hsep⟩
    · exact hin
    · exact absurd hsep (h.whole r hr m (by omega) (by omega))
    · exact absurd hsep (h.whole r hr m (by omega) (by omega))
  have hbegin := hinside r.start (Nat.le_refl _) hfull hfirst
  have hend := hinside (r.stop - 1) (by omega) (by omega) hlast
  omega

theorem Rows.subset (h : Rows bytes s rows) (h' : Rows bytes s rows') : rows ⊆ rows' := by
  intro r hr
  obtain ⟨hstart, hfull, hstop⟩ := h.within r hr
  obtain ⟨r', hr', hin⟩ := h'.exists_mem hstart (Nat.lt_of_lt_of_le hfull hstop) (h.ends r hr).1
    (h.whole r hr _ (Nat.le_refl _) hfull)
  have hsub := h.eq_of_meets h' hr hr' ⟨Nat.le_refl _, hin.1⟩ ⟨hfull, hin.2⟩
  have hsup := h'.eq_of_meets h hr' hr ⟨hin.1, Nat.le_refl _⟩ ⟨hin.2, hfull⟩
  have heq : r = r' := by
    cases r
    cases r'
    simp only [Span.mk.injEq] at *
    omega
  rwa [heq]

theorem Rows.ascending (h : Rows bytes s rows) : rows.Pairwise fun r t => r.start < t.start := by
  refine h.apart.imp_of_mem ?_
  rintro r t hr _ ⟨i, hi, hi', -⟩
  have hfull := (h.within r hr).2.1
  omega

theorem Rows.unique (h : Rows bytes s rows) (h' : Rows bytes s rows') : rows = rows' := by
  have hnodup : ∀ {l : List Span}, l.Pairwise (fun r t => r.start < t.start) → l.Nodup := by
    intro l hl
    refine List.Pairwise.imp ?_ hl
    rintro r t hlt rfl
    exact Nat.lt_irrefl _ hlt
  have hperm : rows.Perm rows' :=
    (List.perm_ext_iff_of_nodup (hnodup h.ascending) (hnodup h'.ascending)).mpr fun r =>
      ⟨fun hr => h.subset h' hr, fun hr => h'.subset h hr⟩
  exact hperm.eq_of_pairwise (fun r t _ _ hlt hgt => absurd hlt (Nat.lt_asymm hgt)) h.ascending
    h'.ascending

end

theorem splitTopLevel_eq_iff (hle : s.start ≤ s.stop) (hstop : s.stop ≤ bytes.length)
    {rows : List Span} : splitTopLevel bytes s = rows ↔ Rows bytes s rows := by
  have hrows := rows_splitTopLevel hle hstop
  constructor
  · rintro rfl
    exact hrows
  · exact fun h => hrows.unique h

end Byte

end SqlAtlas.Text
