import SqlAtlas.Text.Line

/-!
# Offsets between characters

Dropping and taking bytes is exact at the places between two characters. Two byte offsets with such
a place between them have different positions, the earlier one before the later one.
-/

namespace SqlAtlas.Text

set_option autoImplicit false

theorem dropBytes_cons (n : Nat) (c : Char) (cs : List Char) :
    dropBytes (n + c.utf8Size) (c :: cs) = dropBytes n cs := by
  have hpos := c.utf8Size_pos
  obtain ⟨k, hk⟩ : ∃ k, n + c.utf8Size = k + 1 := ⟨n + c.utf8Size - 1, by omega⟩
  rw [hk, dropBytes, ← hk, Nat.add_sub_cancel]

theorem takeBytes_cons (n : Nat) (c : Char) (cs : List Char) :
    takeBytes (n + c.utf8Size) (c :: cs) = c :: takeBytes n cs := by
  have hpos := c.utf8Size_pos
  obtain ⟨k, hk⟩ : ∃ k, n + c.utf8Size = k + 1 := ⟨n + c.utf8Size - 1, by omega⟩
  rw [hk, takeBytes, ← hk, Nat.add_sub_cancel]

theorem dropBytes_size_append (l r : List Char) : dropBytes (size l) (l ++ r) = r := by
  induction l with
  | nil => cases r <;> rfl
  | cons c l ih => rw [size_cons, Nat.add_comm, List.cons_append, dropBytes_cons, ih]

theorem takeBytes_size_append (l r : List Char) : takeBytes (size l) (l ++ r) = l := by
  induction l with
  | nil => cases r <;> rfl
  | cons c l ih => rw [size_cons, Nat.add_comm, List.cons_append, takeBytes_cons, ih]

theorem slice_append (l m r : List Char) :
    slice (l ++ (m ++ r)) ⟨size l, size l + size m⟩ = m := by
  rw [slice, dropBytes_size_append, Nat.add_sub_cancel_left, takeBytes_size_append]

def IsPiece (cs : List Char) (here : Span) (piece : List Char) : Prop :=
  ∃ before after, cs = before ++ (piece ++ after) ∧ here = ⟨size before, size before + size piece⟩

section

variable {cs piece : List Char} {here : Span} (h : IsPiece cs here piece)

include h

theorem IsPiece.slice_eq : slice cs here = piece := by
  obtain ⟨before, after, rfl, rfl⟩ := h
  exact slice_append before piece after

theorem IsPiece.stop_eq : here.stop = here.start + size piece := by
  obtain ⟨before, after, rfl, rfl⟩ := h
  rfl

theorem IsPiece.boundary_start : IsBoundary cs here.start := by
  obtain ⟨before, after, rfl, rfl⟩ := h
  exact ⟨before, piece ++ after, rfl, rfl⟩

theorem IsPiece.boundary_stop : IsBoundary cs here.stop := by
  obtain ⟨before, after, rfl, rfl⟩ := h
  exact ⟨before ++ piece, after, (List.append_assoc _ _ _).symm, size_append before piece⟩

end

theorem eq_nil_of_size {cs : List Char} (h : size cs = 0) : cs = [] := by
  cases cs with
  | nil => rfl
  | cons c cs =>
    have hpos := c.utf8Size_pos
    rw [size_cons] at h
    omega

/-- Of two cuts of a text, the one at the smaller offset comes first. -/
theorem cut_of_size_le {l l' r r' : List Char} (h : l ++ r = l' ++ r') (hsize : size l ≤ size l') :
    ∃ m, l' = l ++ m ∧ r = m ++ r' := by
  rcases List.append_eq_append_iff.mp h with ⟨m, hl', hr⟩ | ⟨m, hl, hr'⟩
  · exact ⟨m, hl', hr⟩
  · rw [hl, size_append] at hsize
    obtain rfl := eq_nil_of_size (show size m = 0 by omega)
    exact ⟨[], by simpa using hl.symm, by simpa using hr'.symm⟩

/-! ### Positions -/

def Position.Before (p q : Position) : Prop := p.line < q.line ∨ p.line = q.line ∧ p.column < q.column

theorem Position.Before.trans {p q r : Position} (h : p.Before q) (h' : q.Before r) : p.Before r := by
  unfold Before at *
  omega

theorem Position.before_after (p : Position) (c : Char) : p.Before (p.after c) := by
  rw [after]
  split
  · exact .inl (Nat.lt_succ_self _)
  · exact .inr ⟨rfl, Nat.lt_succ_self _⟩

theorem Position.Before.ne {p q : Position} (h : p.Before q) : p ≠ q := by
  rintro rfl
  unfold Before at h
  omega

theorem positionFrom_le (p : Position) (n : Nat) (cs : List Char) :
    positionFrom p n cs = p ∨ p.Before (positionFrom p n cs) := by
  induction cs generalizing p n with
  | nil => exact .inl rfl
  | cons c cs ih =>
    rw [positionFrom]
    split
    · exact .inl rfl
    · right
      rcases ih (p.after c) (n - c.utf8Size) with h | h
      · rw [h]
        exact p.before_after c
      · exact (p.before_after c).trans h

theorem positionFrom_size_append (p : Position) (n : Nat) (l r : List Char) :
    positionFrom p (size l + n) (l ++ r) = positionFrom (l.foldl Position.after p) n r := by
  induction l generalizing p with
  | nil => rw [size_nil, Nat.zero_add, List.nil_append, List.foldl_nil]
  | cons c l ih =>
    rw [List.cons_append, positionFrom, size_cons, if_neg (by omega), List.foldl_cons, ← ih,
      Nat.add_assoc, Nat.add_sub_cancel_left]

theorem Position.before_foldl_after (p : Position) (c : Char) (l : List Char) :
    p.Before ((c :: l).foldl Position.after p) := by
  induction l generalizing p c with
  | nil => exact p.before_after c
  | cons d l ih => exact (p.before_after c).trans (ih (p.after c) d)

theorem positionFrom_before_end (p : Position) {n : Nat} {l : List Char} (h : n < size l)
    (r : List Char) : (positionFrom p n (l ++ r)).Before (l.foldl Position.after p) := by
  induction l generalizing p n with
  | nil => exact absurd h (Nat.not_lt_zero n)
  | cons c l ih =>
    rw [List.cons_append, positionFrom]
    split
    · exact p.before_foldl_after c l
    · rename_i hle
      rw [size_cons] at h
      exact ih (p.after c) (by omega)

theorem position_before {cs : List Char} {b : Nat} (hb : IsBoundary cs b) {n m : Nat} (hn : n < b)
    (hm : b ≤ m) : (position cs n).Before (position cs m) := by
  obtain ⟨l, r, rfl, rfl⟩ := hb
  obtain ⟨k, rfl⟩ := Nat.exists_eq_add_of_le hm
  have hbefore := positionFrom_before_end ⟨0, 0⟩ hn r
  rw [position, position, positionFrom_size_append]
  rcases positionFrom_le (l.foldl Position.after ⟨0, 0⟩) k r with h | h
  · rw [h]
    exact hbefore
  · exact hbefore.trans h

theorem extent_ne {cs : List Char} {b : Nat} (hb : IsBoundary cs b) {s t : Span} (hs : s.start < b)
    (ht : b ≤ t.start) : extent cs s ≠ extent cs t := by
  intro h
  apply (position_before hb hs ht).ne
  have hline := congrArg Extent.line h
  have hfirst := congrArg Extent.first h
  simp only [extent] at hline hfirst
  cases hp : position cs s.start
  cases hq : position cs t.start
  simp only [hp, hq] at hline hfirst
  rw [hline, hfirst]

end SqlAtlas.Text
