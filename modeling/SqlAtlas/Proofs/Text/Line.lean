import Mathlib.Data.List.Induction
import SqlAtlas.Proofs.Text.Mask
import SqlAtlas.Proofs.Text.Piece

/-!
# Where lines start

A line starts behind a line feed. The number of line feeds before a place tells its line, and what
stands between the last of them and the place tells its column. A place between characters is found
again from its position.
-/

namespace SqlAtlas.Text

set_option autoImplicit false

/-! ### The lines of a text -/

def lineBreaks (offset : Nat) : List Char → List Nat
  | [] => []
  | c :: cs =>
    if c == '\n' then (offset + 1) :: lineBreaks (offset + 1) cs
    else lineBreaks (offset + c.utf8Size) cs

theorem linesFrom_newline (start : Nat) (cs : List Char) :
    linesFrom start ('\n' :: cs) = ⟨start, []⟩ :: linesFrom (start + 1) cs := by
  rw [linesFrom, if_pos (by decide)]
  rfl

theorem linesFrom_char (start : Nat) {c : Char} (hc : c ≠ '\n') (cs : List Char) : ∃ chars ls,
    linesFrom (start + c.utf8Size) cs = ⟨start + c.utf8Size, chars⟩ :: ls ∧
      linesFrom start (c :: cs) = ⟨start, c :: chars⟩ :: ls := by
  rcases linesFrom_cons start c cs with ⟨h, _⟩ | h
  · exact absurd h hc
  · exact h

theorem map_start_linesFrom (start : Nat) (cs : List Char) :
    (linesFrom start cs).map (·.start) = start :: lineBreaks start cs := by
  induction cs generalizing start with
  | nil => rfl
  | cons c cs ih =>
    by_cases hc : c = '\n'
    · rw [hc, linesFrom_newline, List.map_cons, ih]
      rfl
    · obtain ⟨chars, ls, hrest, hlines⟩ := linesFrom_char start hc cs
      have hstarts := ih (start + c.utf8Size)
      rw [hrest, List.map_cons] at hstarts
      rw [hlines, List.map_cons, lineBreaks, if_neg (by simpa using hc), (List.cons.inj hstarts).2]

theorem lineBreaks_append (offset : Nat) (l r : List Char) :
    lineBreaks offset (l ++ r) = lineBreaks offset l ++ lineBreaks (offset + size l) r := by
  induction l generalizing offset with
  | nil => rfl
  | cons c l ih =>
    rw [List.cons_append, lineBreaks, lineBreaks, size_cons, ← Nat.add_assoc]
    split
    · rename_i hc
      rw [beq_iff_eq.mp hc, ih, List.cons_append]
      rfl
    · exact ih _

theorem length_lineBreaks (offset : Nat) (cs : List Char) :
    (lineBreaks offset cs).length = cs.count '\n' := by
  induction cs generalizing offset with
  | nil => rfl
  | cons c cs ih =>
    rw [lineBreaks, List.count_cons]
    split
    · rw [List.length_cons, ih]
    · rw [ih, Nat.add_zero]

theorem lineBreaks_bounds {offset n : Nat} {cs : List Char} (h : n ∈ lineBreaks offset cs) :
    offset < n ∧ n ≤ offset + size cs := by
  induction cs generalizing offset with
  | nil => cases h
  | cons c cs ih =>
    have hpos := c.utf8Size_pos
    rw [size_cons]
    rw [lineBreaks] at h
    split at h
    · rename_i hc
      have hsize : c.utf8Size = 1 := by
        rw [beq_iff_eq.mp hc]
        rfl
      rcases List.mem_cons.mp h with rfl | h
      · omega
      · have hbounds := ih h
        omega
    · have hbounds := ih h
      omega

theorem countP_lineBreaks (l r : List Char) :
    (0 :: lineBreaks 0 (l ++ r)).countP (fun n => decide (n ≤ size l)) = l.count '\n' + 1 := by
  have hbefore : (lineBreaks 0 l).countP (fun n => decide (n ≤ size l)) = l.count '\n' := by
    rw [List.countP_eq_length.mpr, length_lineBreaks]
    intro n hn
    have hbounds := lineBreaks_bounds hn
    rw [decide_eq_true_eq]
    omega
  have hafter : (lineBreaks (0 + size l) r).countP (fun n => decide (n ≤ size l)) = 0 := by
    rw [List.countP_eq_zero]
    intro n hn
    have hbounds := lineBreaks_bounds hn
    rw [decide_eq_true_eq]
    omega
  rw [lineBreaks_append, List.countP_cons, List.countP_append, hbefore, hafter]
  simp

def lastLine (cs : List Char) : List Char := (cs.reverse.takeWhile (· != '\n')).reverse

theorem lastLine_concat (cs : List Char) (c : Char) :
    lastLine (cs ++ [c]) = if c = '\n' then [] else lastLine cs ++ [c] := by
  rw [lastLine, List.reverse_append, List.reverse_singleton, List.singleton_append,
    List.takeWhile_cons]
  split
  · rename_i hc
    rw [if_neg (by simpa using hc), List.reverse_cons, lastLine]
  · rename_i hc
    rw [if_pos (by simpa using hc), List.reverse_nil]

theorem lastLine_eq_self {cs : List Char} (h : cs.count '\n' = 0) : lastLine cs = cs := by
  rw [lastLine, List.takeWhile_eq_self_iff.mpr, List.reverse_reverse]
  intro c hc
  rw [bne_iff_ne]
  rintro rfl
  exact List.count_eq_zero.mp h (List.mem_reverse.mp hc)

theorem lastLine_cons (c : Char) (cs : List Char) :
    lastLine (c :: cs) = if cs.count '\n' = 0 ∧ c ≠ '\n' then c :: cs else lastLine cs := by
  induction cs using List.reverseRecOn with
  | nil =>
    have h := lastLine_concat [] c
    rw [List.nil_append] at h
    rw [h]
    by_cases hc : c = '\n' <;> simp [hc, lastLine]
  | append_singleton cs d ih =>
    rw [← List.cons_append, lastLine_concat, lastLine_concat, ih, List.count_append]
    by_cases hd : d = '\n'
    · simp [hd]
    · simp [hd]
      split <;> simp

theorem lastLine_suffix (cs : List Char) : ∃ lead, cs = lead ++ lastLine cs := by
  refine ⟨(cs.reverse.dropWhile (· != '\n')).reverse, ?_⟩
  rw [lastLine, ← List.reverse_append, List.takeWhile_append_dropWhile, List.reverse_reverse]

theorem size_lastLine_le (cs : List Char) : size (lastLine cs) ≤ size cs := by
  obtain ⟨lead, hsplit⟩ := lastLine_suffix cs
  have hsize := congrArg size hsplit
  rw [size_append] at hsize
  omega

theorem getElem?_linesFrom_zero (start : Nat) (cs : List Char) :
    (linesFrom start cs)[0]? = some ⟨start, cs.takeWhile (· != '\n')⟩ := by
  induction cs generalizing start with
  | nil => rfl
  | cons c cs ih =>
    by_cases hc : c = '\n'
    · rw [hc, linesFrom_newline]
      rfl
    · obtain ⟨chars, ls, hrest, hlines⟩ := linesFrom_char start hc cs
      have hchars := ih (start + c.utf8Size)
      rw [hrest, List.getElem?_cons_zero, Option.some.injEq, Line.mk.injEq] at hchars
      rw [hlines, List.getElem?_cons_zero, hchars.2, List.takeWhile_cons_of_pos (by simpa using hc)]

theorem getElem?_linesFrom (start : Nat) (l r : List Char) :
    (linesFrom start (l ++ r))[l.count '\n']? =
      some ⟨start + (size l - size (lastLine l)), lastLine l ++ r.takeWhile (· != '\n')⟩ := by
  induction l generalizing start with
  | nil => exact getElem?_linesFrom_zero start r
  | cons c l ih =>
    have hsize := size_lastLine_le l
    by_cases hc : c = '\n'
    · subst hc
      have hone : '\n'.utf8Size = 1 := rfl
      rw [List.cons_append, linesFrom_newline, List.count_cons_self, List.getElem?_cons_succ, ih,
        lastLine_cons, if_neg (by simp), size_cons, hone, Nat.add_assoc,
        Nat.add_sub_assoc hsize]
    · obtain ⟨chars, ls, hrest, hlines⟩ := linesFrom_char start hc (l ++ r)
      have hline := ih (start + c.utf8Size)
      rw [hrest] at hline
      rw [List.cons_append, hlines, List.count_cons_of_ne hc, lastLine_cons]
      cases hcount : l.count '\n' with
      | zero =>
        -- the place is still in the first line
        rw [hcount, List.getElem?_cons_zero, lastLine_eq_self hcount] at hline
        rw [if_pos ⟨rfl, hc⟩, List.getElem?_cons_zero, Nat.sub_self]
        simpa using hline
      | succ k =>
        rw [hcount, List.getElem?_cons_succ] at hline
        rw [if_neg (by simp), List.getElem?_cons_succ, hline, size_cons, Nat.add_assoc,
          Nat.add_sub_assoc hsize]

/-- A line ends in front of the next one's line feed, the last line with the text. -/
theorem stop_linesFrom {start i : Nat} {cs : List Char} {l : Line}
    (h : (linesFrom start cs)[i]? = some l) :
    (∃ next, (linesFrom start cs)[i + 1]? = some next ∧ next.start = l.span.stop + 1) ∨
      (linesFrom start cs)[i + 1]? = none ∧ l.span.stop = start + size cs := by
  induction cs generalizing start i l with
  | nil =>
    cases i with
    | zero =>
      cases h
      exact .inr ⟨rfl, rfl⟩
    | succ i => cases h
  | cons c cs ih =>
    have hend : ∀ start, start + c.utf8Size + size cs = start + size (c :: cs) := by
      intro start
      rw [size_cons, Nat.add_assoc]
    by_cases hc : c = '\n'
    · subst hc
      rw [linesFrom_newline] at h ⊢
      rw [← hend]
      cases i with
      | zero =>
        cases h
        exact .inl ⟨_, getElem?_linesFrom_zero (start + 1) cs, rfl⟩
      | succ i => exact ih h
    · obtain ⟨chars, ls, hrest, hlines⟩ := linesFrom_char start hc cs
      have hlater := @ih (start + c.utf8Size)
      rw [hrest] at hlater
      rw [hlines] at h ⊢
      rw [← hend]
      cases i with
      | zero =>
        cases h
        have hfirst := hlater (i := 0) rfl
        simpa only [Line.span, size_cons, Nat.add_assoc, List.getElem?_cons_succ] using hfirst
      | succ i => exact hlater (i := i + 1) h

/-! ### Positions -/

theorem foldl_after (cs : List Char) :
    cs.foldl Position.after ⟨0, 0⟩ = ⟨cs.count '\n', (lastLine cs).length⟩ := by
  induction cs using List.reverseRecOn with
  | nil => rfl
  | append_singleton cs c ih =>
    rw [List.foldl_append, ih, List.foldl_cons, List.foldl_nil, Position.after, lastLine_concat,
      List.count_append]
    by_cases hc : c = '\n' <;> simp [hc]

theorem position_append (l r : List Char) :
    position (l ++ r) (size l) = ⟨l.count '\n', (lastLine l).length⟩ := by
  have h := positionFrom_size_append ⟨0, 0⟩ 0 l r
  rw [Nat.add_zero, foldl_after] at h
  rw [position, h]
  cases r with
  | nil => rfl
  | cons c r => rw [positionFrom, if_pos c.utf8Size_pos]

theorem position_min_size (cs : List Char) (n : Nat) : position cs (min n (size cs)) = position cs n := by
  rcases Nat.le_total n (size cs) with h | h
  · rw [Nat.min_eq_left h]
  · obtain ⟨k, rfl⟩ := Nat.exists_eq_add_of_le h
    have hend : ∀ k, position cs (size cs + k) = cs.foldl Position.after ⟨0, 0⟩ := by
      intro k
      have hfold := positionFrom_size_append ⟨0, 0⟩ k cs []
      rwa [List.append_nil] at hfold
    rw [Nat.min_eq_right h, hend, ← hend 0, Nat.add_zero]

/-- Inside a character the position stays the same. -/
theorem positionFrom_succ (p : Position) {n : Nat} {cs : List Char} (h : ¬IsBoundary cs (n + 1)) :
    positionFrom p (n + 1) cs = positionFrom p n cs := by
  induction cs generalizing p n with
  | nil => rfl
  | cons c cs ih =>
    rw [positionFrom, positionFrom]
    by_cases hinside : n + 1 < c.utf8Size
    · rw [if_pos hinside, if_pos (by omega)]
    · by_cases hend : n + 1 = c.utf8Size
      · exact absurd ⟨[c], cs, rfl, by rw [hend]; rfl⟩ h
      · obtain ⟨k, rfl⟩ := Nat.exists_eq_add_of_le (show c.utf8Size ≤ n by omega)
        rw [if_neg hinside, if_neg (by omega), Nat.add_sub_cancel_left, Nat.add_assoc,
          Nat.add_sub_cancel_left]
        apply ih
        rintro ⟨l, r, rfl, hsize⟩
        exact h ⟨c :: l, r, rfl, by rw [size_cons, hsize, Nat.add_assoc]⟩

theorem offset_position {cs : List Char} {n : Nat} (h : IsBoundary cs n) :
    offset cs (position cs n) = n := by
  obtain ⟨l, r, rfl, rfl⟩ := h
  have hline := getElem?_linesFrom 0 l r
  have hsize := size_lastLine_le l
  rw [offset, position_append, lines, hline]
  simp only [List.take_left]
  omega

/-! ### Pieces of a line -/

theorem newline_notMem_of_mem_linesFrom {start : Nat} {cs : List Char} {l : Line}
    (h : l ∈ linesFrom start cs) : '\n' ∉ l.chars := by
  induction cs generalizing start l with
  | nil =>
    cases List.mem_singleton.mp h
    exact List.not_mem_nil
  | cons c cs ih =>
    by_cases hc : c = '\n'
    · rw [hc, linesFrom_newline] at h
      rcases List.mem_cons.mp h with rfl | h
      · exact List.not_mem_nil
      · exact ih h
    · obtain ⟨chars, ls, hrest, hlines⟩ := linesFrom_char start hc cs
      rw [hlines] at h
      rcases List.mem_cons.mp h with rfl | h
      · rintro (_ | ⟨_, hmem⟩)
        · exact hc rfl
        · exact ih (hrest ▸ List.mem_cons_self) hmem
      · exact ih (hrest ▸ List.mem_cons_of_mem _ h)

theorem newline_notMem_of_within {cs piece : List Char} {l : Line} {here : Span} (hl : l ∈ lines cs)
    (h : IsPiece cs here piece) (hstart : l.span.start ≤ here.start) (hstop : here.stop ≤ l.span.stop) :
    '\n' ∉ piece := by
  obtain ⟨before, after, hcs, hbefore⟩ := linesFrom_piece hl
  have hline : IsPiece cs l.span l.chars := by
    refine ⟨before, after, hcs, ?_⟩
    rw [Line.span, hbefore, Nat.zero_add]
  obtain ⟨lead, tail, hchars, _⟩ := hline.split_at h hstart hstop
  intro hmem
  apply newline_notMem_of_mem_linesFrom hl
  rw [hchars]
  exact List.mem_append_right lead (List.mem_append_left tail hmem)

theorem IsPiece.position_stop_line {cs piece : List Char} {here : Span} (h : IsPiece cs here piece)
    (hline : '\n' ∉ piece) : (position cs here.stop).line = (position cs here.start).line := by
  obtain ⟨before, after, rfl, rfl⟩ := h
  have hstop := position_append (before ++ piece) after
  rw [size_append, List.append_assoc] at hstop
  rw [position_append, hstop, List.count_append, List.count_eq_zero.mpr hline, Nat.add_zero]

theorem IsPiece.eq_of_extent {cs piece piece' : List Char} {here here' : Span}
    (h : IsPiece cs here piece) (h' : IsPiece cs here' piece') (hline : '\n' ∉ piece)
    (hline' : '\n' ∉ piece') (heq : extent cs here = extent cs here') : here = here' := by
  have heq_of_position : ∀ {m n : Nat}, IsBoundary cs m → IsBoundary cs n →
      (position cs m).line = (position cs n).line → (position cs m).column = (position cs n).column →
      m = n := by
    intro m n hm hn hline hcolumn
    have hsame : position cs m = position cs n := by
      cases hp : position cs m
      cases hq : position cs n
      simp only [hp, hq] at hline hcolumn
      rw [hline, hcolumn]
    rw [← offset_position hm, hsame, offset_position hn]
  simp only [extent, Extent.mk.injEq] at heq
  obtain ⟨hsame, hfirst, hlast⟩ := heq
  have hstart := heq_of_position h.boundary_start h'.boundary_start hsame hfirst
  have hstop := heq_of_position h.boundary_stop h'.boundary_stop (by
    rw [h.position_stop_line hline, h'.position_stop_line hline', hsame]) hlast
  cases here
  cases here'
  cases hstart
  cases hstop
  rfl

end SqlAtlas.Text
