import Mathlib.Data.List.TakeWhile
import SqlAtlas.Proofs.Text.Piece
import SqlAtlas.Text.Block

/-!
# Blocks and separators stand between characters

The offsets of code characters are places between characters. Commas, semicolons and parentheses are
one byte long, so what a cut leaves on both sides of one are pieces of the text.
-/

namespace SqlAtlas.Text

set_option autoImplicit false

/-! ### Code characters -/

theorem mem_codeOf {offset i : Nat} {c : Char} {rs : List (Char × Role)} (h : (i, c) ∈ codeOf offset rs) :
    ∃ l r, rs.map (·.1) = l ++ c :: r ∧ i = offset + size l := by
  induction rs generalizing offset with
  | nil => cases h
  | cons p rs ih =>
    obtain ⟨d, role⟩ := p
    have hlater : (i, c) ∈ codeOf (offset + d.utf8Size) rs →
        ∃ l r, d :: rs.map (·.1) = l ++ c :: r ∧ i = offset + size l := by
      intro hmem
      obtain ⟨l, r, hrs, rfl⟩ := ih hmem
      exact ⟨d :: l, r, by rw [hrs]; rfl, by rw [size_cons, Nat.add_assoc]⟩
    rw [codeOf] at h
    split at h
    · rcases List.mem_cons.mp h with heq | h
      · cases heq
        exact ⟨[], _, rfl, rfl⟩
      · exact hlater h
    · exact hlater h

theorem codeOf_ascending (offset : Nat) (rs : List (Char × Role)) :
    (codeOf offset rs).Pairwise fun p q => p.1 < q.1 := by
  induction rs generalizing offset with
  | nil => exact List.Pairwise.nil
  | cons p rs ih =>
    obtain ⟨d, role⟩ := p
    rw [codeOf]
    split
    · refine List.pairwise_cons.mpr ⟨?_, ih _⟩
      rintro ⟨i, c⟩ hmem
      obtain ⟨l, r, _, rfl⟩ := mem_codeOf hmem
      have hpos := d.utf8Size_pos
      simp only
      omega
    · exact ih _

variable {cs : List Char}

def StandsAt (cs : List Char) (c : Char) (i : Nat) : Prop := ∃ l r, cs = l ++ c :: r ∧ size l = i

theorem StandsAt.boundary {c : Char} {i : Nat} (h : StandsAt cs c i) : IsBoundary cs i := by
  obtain ⟨l, r, rfl, rfl⟩ := h
  exact ⟨l, c :: r, rfl, rfl⟩

theorem StandsAt.boundary_after {c : Char} {i : Nat} (h : StandsAt cs c i) :
    IsBoundary cs (i + c.utf8Size) := by
  obtain ⟨l, r, rfl, rfl⟩ := h
  exact ⟨l ++ [c], r, by rw [List.append_assoc, List.singleton_append], by simp⟩

theorem standsAt_of_charAt? {c : Char} {i : Nat} (h : charAt? cs i = some c) (hi : IsBoundary cs i) :
    StandsAt cs c i := by
  obtain ⟨l, r, rfl, rfl⟩ := hi
  rw [charAt?, dropBytes_size_append] at h
  obtain ⟨rest, rfl⟩ := List.head?_eq_some_iff.mp h
  exact ⟨l, rest, rfl, rfl⟩

theorem mem_codeIn {s : Span} (hs : IsBoundary cs s.start) {i : Nat} {c : Char}
    (h : (i, c) ∈ codeIn cs s) : StandsAt cs c i ∧ s.start ≤ i ∧ i < s.stop := by
  obtain ⟨before, rest, rfl, hstart⟩ := hs
  have hstop := List.mem_takeWhile_imp h
  rw [decide_eq_true_eq] at hstop
  obtain ⟨l, r, hrest, hi⟩ := mem_codeOf ((List.takeWhile_subset _) h)
  rw [roles, rolesFrom_map_fst, ← hstart, dropBytes_size_append] at hrest
  refine ⟨⟨before ++ l, r, by rw [hrest, List.append_assoc], ?_⟩, by omega, hstop⟩
  rw [size_append, hstart, hi]

theorem codeIn_ascending (cs : List Char) (s : Span) :
    (codeIn cs s).Pairwise fun p q => p.1 < q.1 :=
  (codeOf_ascending _ _).sublist (List.takeWhile_sublist _)

theorem codeIn_reversed {s : Span} (hs : IsBoundary cs s.start) (h : s.stop ≤ s.start) :
    codeIn cs s = [] := by
  rw [List.eq_nil_iff_forall_not_mem]
  rintro ⟨i, c⟩ hmem
  obtain ⟨_, hstart, hstop⟩ := mem_codeIn hs hmem
  omega

/-! ### Cuts -/

theorem start_le_of_mem_cutAt {start stop : Nat} {marks : List Nat} (hsorted : marks.Pairwise (· < ·))
    (hmarks : ∀ i ∈ marks, start ≤ i) {s : Span} (h : s ∈ cutAt start stop marks) : start ≤ s.start := by
  induction marks generalizing start with
  | nil =>
    cases List.mem_singleton.mp h
    exact Nat.le_refl start
  | cons i marks ih =>
    obtain ⟨hfirst, hsorted⟩ := List.pairwise_cons.mp hsorted
    rcases List.mem_cons.mp h with rfl | h
    · exact Nat.le_refl start
    · have hi := hmarks i List.mem_cons_self
      have hlater := ih hsorted (fun j hj => hfirst j hj) h
      omega

theorem stop_le_of_mem_cutAt {start stop limit : Nat} {marks : List Nat} (hstop : stop ≤ limit)
    (hmarks : ∀ i ∈ marks, i ≤ limit) {s : Span} (h : s ∈ cutAt start stop marks) : s.stop ≤ limit := by
  induction marks generalizing start with
  | nil =>
    cases List.mem_singleton.mp h
    exact hstop
  | cons i marks ih =>
    rcases List.mem_cons.mp h with rfl | h
    · exact hmarks i List.mem_cons_self
    · exact ih (fun j hj => hmarks j (List.mem_cons_of_mem i hj)) h

theorem cutAt_apart {start stop : Nat} {marks : List Nat} (hsorted : marks.Pairwise (· < ·)) :
    (cutAt start stop marks).Pairwise fun s next => s.stop ≤ next.start := by
  induction marks generalizing start with
  | nil => exact List.pairwise_singleton _ _
  | cons i marks ih =>
    obtain ⟨hfirst, hsorted⟩ := List.pairwise_cons.mp hsorted
    refine List.pairwise_cons.mpr ⟨fun s hs => ?_, ih hsorted⟩
    have hlater := start_le_of_mem_cutAt hsorted (fun j hj => hfirst j hj) hs
    simp only
    omega

/-- Cuts at characters of one byte leave pieces. -/
theorem isPiece_of_mem_cutAt {start stop : Nat} {marks : List Nat} (hstart : IsBoundary cs start)
    (hstop : IsBoundary cs stop) (hle : start ≤ stop) (hsorted : marks.Pairwise (· < ·))
    (hmarks : ∀ i ∈ marks, start ≤ i ∧ i < stop ∧ IsBoundary cs i ∧ IsBoundary cs (i + 1)) {s : Span}
    (h : s ∈ cutAt start stop marks) : ∃ piece, IsPiece cs s piece := by
  induction marks generalizing start with
  | nil =>
    cases List.mem_singleton.mp h
    exact ⟨_, isPiece_of_boundaries hstart hstop hle⟩
  | cons i marks ih =>
    obtain ⟨hge, hlt, hbefore, hafter⟩ := hmarks i List.mem_cons_self
    obtain ⟨hfirst, hsorted⟩ := List.pairwise_cons.mp hsorted
    rcases List.mem_cons.mp h with rfl | h
    · exact ⟨_, isPiece_of_boundaries hstart hbefore hge⟩
    · refine ih hafter hlt hsorted ?_ h
      intro j hj
      obtain ⟨_, hj'⟩ := hmarks j (List.mem_cons_of_mem i hj)
      exact ⟨hfirst j hj, hj'⟩

theorem trimSpan_within (cs : List Char) (s : Span) :
    s.start ≤ (trimSpan cs s).start ∧ (trimSpan cs s).stop ≤ s.stop := by
  rw [trimSpan]
  constructor
  · exact Nat.le_add_right _ _
  · exact (Nat.sub_le _ _).trans (Nat.min_le_left _ _)

theorem isPiece_of_mem_trimmedPieces {pieces : List Span}
    (hpieces : ∀ p ∈ pieces, ∃ piece, IsPiece cs p piece) {s : Span}
    (h : s ∈ trimmedPieces cs pieces) : ∃ piece, IsPiece cs s piece ∧ Trimmed piece := by
  obtain ⟨hmem, hfull⟩ := List.mem_filter.mp h
  obtain ⟨p, hp, rfl⟩ := List.mem_map.mp hmem
  obtain ⟨piece, hpiece⟩ := hpieces p hp
  refine ⟨_, hpiece.trim, trimmed_trimBy fun hnil => ?_⟩
  have hstop := hpiece.trim.stop_eq
  rw [hnil, size_nil, Nat.add_zero] at hstop
  simp [Span.isEmpty, hstop] at hfull

theorem sublist_commasIn (depth : Nat) (ps : List (Nat × Char)) :
    ((commasIn depth ps).map fun i => (i, ',')).Sublist ps := by
  induction ps generalizing depth with
  | nil => exact List.Sublist.refl _
  | cons p ps ih =>
    obtain ⟨i, c⟩ := p
    rw [commasIn]
    split
    · rename_i hcomma
      rw [Bool.and_eq_true, beq_iff_eq] at hcomma
      rw [hcomma.1, List.map_cons]
      exact (ih depth).cons_cons _
    · exact (ih _).cons _

theorem isPiece_of_mem_splitTopLevel {s t : Span} (hstart : IsBoundary cs s.start)
    (hstop : IsBoundary cs s.stop) (h : t ∈ splitTopLevel cs s) :
    ∃ piece, IsPiece cs t piece ∧ Trimmed piece := by
  rw [splitTopLevel, Nat.min_eq_left hstop.le_size] at h
  rcases Nat.lt_or_ge s.stop s.start with hlt | hle
  · have hempty : (⟨s.start, s.stop⟩ : Span) = s := rfl
    rw [codeIn_reversed hstart (Nat.le_of_lt hlt), commasIn, cutAt, hempty, trimmedPieces] at h
    obtain ⟨hmem, hfull⟩ := List.mem_filter.mp h
    cases List.mem_singleton.mp hmem
    have hnone : Text.slice cs ⟨s.start, min s.stop (size cs)⟩ = [] := by
      rw [slice, Nat.sub_eq_zero_of_le (Nat.le_trans (Nat.min_le_left _ _) (Nat.le_of_lt hlt))]
      cases dropBytes s.start cs <;> rfl
    simp only [trimSpan, hnone, Span.isEmpty, List.dropWhile_nil, List.length_nil,
      Bool.not_eq_true', decide_eq_false_iff_not] at hfull
    omega
  · refine isPiece_of_mem_trimmedPieces (fun p hp => ?_) h
    have hsub := sublist_commasIn 0 (codeIn cs s)
    refine isPiece_of_mem_cutAt hstart hstop hle ?_ ?_ hp
    · exact List.pairwise_map (f := fun i => (i, ',')).mp ((codeIn_ascending cs s).sublist hsub)
    · intro i hi
      obtain ⟨hcomma, hge, hlt⟩ := mem_codeIn hstart (hsub.subset (List.mem_map_of_mem hi))
      exact ⟨hge, hlt, hcomma.boundary, hcomma.boundary_after⟩

theorem mem_splitTopLevel_within {s t : Span} (hstart : IsBoundary cs s.start)
    (h : t ∈ splitTopLevel cs s) : s.start ≤ t.start ∧ t.stop ≤ s.stop := by
  obtain ⟨hmem, _⟩ := List.mem_filter.mp h
  obtain ⟨p, hp, rfl⟩ := List.mem_map.mp hmem
  have hsub := sublist_commasIn 0 (codeIn cs s)
  have hcommas : ∀ i ∈ commasIn 0 (codeIn cs s), s.start ≤ i ∧ i < s.stop := fun i hi =>
    (mem_codeIn hstart (hsub.subset (List.mem_map_of_mem hi))).2
  have hsorted := List.pairwise_map (f := fun i => (i, ',')).mp ((codeIn_ascending cs s).sublist hsub)
  have hfirst := start_le_of_mem_cutAt hsorted (fun i hi => (hcommas i hi).1) hp
  have hlast := stop_le_of_mem_cutAt (Nat.min_le_left _ _) (fun i hi => (hcommas i hi).2.le) hp
  have hwithin := trimSpan_within cs p
  exact ⟨hfirst.trans hwithin.1, hwithin.2.trans hlast⟩

theorem splitOnSemicolons_apart (cs : List Char) :
    (splitOnSemicolons cs).Pairwise fun s next => s.stop ≤ next.start := by
  refine List.Pairwise.filter _ (List.pairwise_map.mpr (List.Pairwise.imp ?_ (cutAt_apart ?_)))
  · intro s next hle
    exact (trimSpan_within cs s).2.trans (hle.trans (trimSpan_within cs next).1)
  · exact List.pairwise_map.mpr ((codeIn_ascending cs _).filter _)

theorem isPiece_of_mem_splitOnSemicolons {s : Span} (h : s ∈ splitOnSemicolons cs) :
    ∃ piece, IsPiece cs s piece ∧ Trimmed piece := by
  refine isPiece_of_mem_trimmedPieces (fun p hp => ?_) h
  refine isPiece_of_mem_cutAt (isBoundary_zero cs) (isBoundary_size cs) (Nat.zero_le _) ?_ ?_ hp
  · exact List.pairwise_map.mpr ((codeIn_ascending cs _).filter _)
  · intro i hi
    obtain ⟨⟨_, c⟩, hmem, rfl⟩ := List.mem_map.mp hi
    obtain ⟨hcode, hc⟩ := List.mem_filter.mp hmem
    obtain ⟨hmark, hge, hlt⟩ := mem_codeIn (isBoundary_zero cs) hcode
    cases beq_iff_eq.mp hc
    exact ⟨hge, hlt, hmark.boundary, hmark.boundary_after⟩

/-! ### Parentheses and words -/

theorem mem_of_closingIn {depth i : Nat} {ps : List (Nat × Char)} (h : closingIn depth ps = some i) :
    (i, ')') ∈ ps := by
  induction ps generalizing depth with
  | nil => cases h
  | cons p ps ih =>
    obtain ⟨j, c⟩ := p
    rw [closingIn] at h
    split at h
    · rename_i hclose
      rw [Bool.and_eq_true, beq_iff_eq] at hclose
      cases h
      rw [hclose.1]
      exact List.mem_cons_self
    · exact List.mem_cons_of_mem _ (ih h)

theorem isBoundary_matchingParen? {start i : Nat} (hstart : IsBoundary cs start)
    (h : matchingParen? cs start = some i) : IsBoundary cs i := by
  rw [matchingParen?] at h
  split at h
  · exact (mem_codeIn (s := ⟨start, size cs⟩) hstart (mem_of_closingIn h)).1.boundary
  · cases h

theorem utf8Size_toLower (c : Char) : c.toLower.utf8Size = c.utf8Size := by
  delta Char.toLower
  split
  · rename_i h
    obtain ⟨hlow, hhigh⟩ := h
    have hshift : ('a'.val - 'A'.val).toNat = 32 := rfl
    have hlimit : (UInt32.ofNatLT 127 (by decide)).toNat = 127 := rfl
    have hlast : 'Z'.val.toNat = 90 := rfl
    rw [ge_iff_le, UInt32.le_iff_toNat_le] at hlow
    rw [UInt32.le_iff_toNat_le, hlast] at hhigh
    simp only [Char.utf8Size]
    rw [if_pos, if_pos]
    · rw [UInt32.le_iff_toNat_le, hlimit]
      omega
    · rw [UInt32.le_iff_toNat_le, UInt32.toNat_add, hshift, hlimit]
      omega
  · rfl

theorem startsWithFold_split {word cs : List Char} (h : startsWithFold word cs = true) :
    ∃ front rest, cs = front ++ rest ∧ size front = size word := by
  induction word generalizing cs with
  | nil => exact ⟨[], cs, rfl, rfl⟩
  | cons w word ih =>
    cases cs with
    | nil => cases h
    | cons c cs =>
      rw [startsWithFold, Bool.and_eq_true, beq_iff_eq] at h
      obtain ⟨front, rest, rfl, hsize⟩ := ih h.2
      refine ⟨c :: front, rest, rfl, ?_⟩
      rw [size_cons, size_cons, hsize, ← utf8Size_toLower c, ← h.1, utf8Size_toLower]

theorem findTopLevelWord?_eq_some {s : Span} {word : List Char} {i : Nat} (hs : IsBoundary cs s.start)
    (h : findTopLevelWord? cs s word = some i) :
    IsBoundary cs i ∧ IsBoundary cs (i + size word) ∧ s.start ≤ i ∧ i + size word ≤ s.stop := by
  have hfound : ∀ {depth ps}, wordIn cs s.stop word depth ps = some i →
      (∃ c, (i, c) ∈ ps) ∧ wordAt cs s.stop word i = true := by
    intro depth ps h
    induction ps generalizing depth with
    | nil => cases h
    | cons p ps ih =>
      obtain ⟨j, c⟩ := p
      rw [wordIn] at h
      split at h
      · rename_i hword
        rw [Bool.and_eq_true] at hword
        cases h
        exact ⟨⟨c, List.mem_cons_self⟩, hword.2⟩
      · obtain ⟨⟨d, hd⟩, hword⟩ := ih h
        exact ⟨⟨d, List.mem_cons_of_mem _ hd⟩, hword⟩
  obtain ⟨⟨c, hc⟩, hword⟩ := hfound h
  simp only [wordAt, Bool.and_eq_true, decide_eq_true_eq] at hword
  have hfirst := (mem_codeIn hs hc).2.1
  obtain ⟨l, r, rfl, rfl⟩ := (mem_codeIn hs hc).1.boundary
  rw [dropBytes_size_append] at hword
  obtain ⟨front, rest, rfl, hsize⟩ := startsWithFold_split hword.1.1.2
  refine ⟨⟨l, front ++ rest, rfl, rfl⟩, ⟨l ++ front, rest, ?_, ?_⟩, hfirst, hword.1.1.1⟩
  · rw [List.append_assoc]
  · rw [size_append, hsize]

end SqlAtlas.Text
