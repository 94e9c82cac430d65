import Mathlib.Algebra.Ring.Nat
import Mathlib.Logic.ExistsUnique
import SqlAtlas.Proofs.Text.Line

/-!
# Offsets and positions are inverse

A position leads back to the place that it was read from, and an offset back to the line and the column
that it was asked for. Positions are handed out in words of 32 bits, which is enough for every text of
fewer than `2 ^ 32` bytes.
-/

namespace SqlAtlas.Text

set_option autoImplicit false

/-- A position as it is handed out, in words of 32 bits. -/
def Position.narrow (p : Position) : Position := ⟨p.line % 2 ^ 32, p.column % 2 ^ 32⟩

/-- A byte stands on a line: in one of its characters, or in the line feed that ends it. -/
def OnLine (cs : List Char) (i n : Nat) : Prop :=
  ∃ l, (lines cs)[i]? = some l ∧ l.span.start ≤ n ∧
    (n < l.span.stop ∨ n = l.span.stop ∧ charAt? cs n = some '\n')

/-! ### Positions in words -/

theorem positionFrom_bounds (p : Position) (n : Nat) (cs : List Char) :
    (positionFrom p n cs).line ≤ p.line + size cs ∧
      (positionFrom p n cs).column ≤ p.column + size cs := by
  induction cs generalizing p n with
  | nil => exact ⟨Nat.le_refl _, Nat.le_refl _⟩
  | cons c cs ih =>
    have hpos := c.utf8Size_pos
    rw [positionFrom, size_cons]
    split
    · omega
    · have hafter : (p.after c).line ≤ p.line + 1 ∧ (p.after c).column ≤ p.column + 1 := by
        rw [Position.after]
        split <;> simp
      have hbounds := ih (p.after c) (n - c.utf8Size)
      omega

theorem narrow_position {cs : List Char} (h : size cs < 2 ^ 32) (n : Nat) :
    (position cs n).narrow = position cs n := by
  obtain ⟨hline, hcolumn⟩ := positionFrom_bounds ⟨0, 0⟩ n cs
  simp only [Nat.zero_add] at hline hcolumn
  rw [Position.narrow, position, Nat.mod_eq_of_lt (by omega), Nat.mod_eq_of_lt (by omega)]

/-! ### From a position to an offset and back -/

/-- What stands in front of a line: as many line feeds as there are lines before it, the last one at
the very end. -/
theorem line_split {start i : Nat} {cs : List Char} {l : Line} (h : (linesFrom start cs)[i]? = some l) :
    ∃ before after, cs = before ++ (l.chars ++ after) ∧ l.start = start + size before ∧
      before.count '\n' = i ∧ lastLine before = [] := by
  induction cs generalizing start i l with
  | nil =>
    cases i with
    | zero =>
      cases h
      exact ⟨[], [], rfl, rfl, rfl, rfl⟩
    | succ i => cases h
  | cons c cs ih =>
    cases i with
    | zero =>
      have hfirst := (getElem?_linesFrom_zero start (c :: cs)).symm.trans h
      cases hfirst
      refine ⟨[], (c :: cs).dropWhile (· != '\n'), ?_, rfl, rfl, rfl⟩
      exact (List.takeWhile_append_dropWhile (p := (· != '\n')) (l := c :: cs)).symm
    | succ i =>
      -- a later line of the text is a line of what stands behind the character
      obtain ⟨j, hj, hcount⟩ : ∃ j, (linesFrom (start + c.utf8Size) cs)[j]? = some l ∧
          (if c = '\n' then 1 else 0) + j = i + 1 := by
        rcases linesFrom_cons start c cs with ⟨rfl, hlines⟩ | ⟨chars, ls, hrest, hlines⟩
        · rw [hlines, List.getElem?_cons_succ] at h
          exact ⟨i, h, Nat.add_comm 1 i⟩
        · by_cases hc : c = '\n'
          · rw [hc, linesFrom_newline, List.getElem?_cons_succ] at h
            exact ⟨i, hc ▸ h, by rw [if_pos hc, Nat.add_comm]⟩
          · rw [hlines, List.getElem?_cons_succ] at h
            exact ⟨i + 1, by rw [hrest, List.getElem?_cons_succ, h], by rw [if_neg hc, Nat.zero_add]⟩
      obtain ⟨before, after, hcs, hstart, hbefore, hlast⟩ := ih hj
      refine ⟨c :: before, after, by rw [hcs]; rfl, by rw [hstart, size_cons, Nat.add_assoc], ?_, ?_⟩
      · rw [List.count_cons, hbefore, ← hcount, Nat.add_comm]
        simp only [beq_iff_eq]
      · rw [lastLine_cons, if_neg, hlast]
        rintro ⟨hnone, hc⟩
        rw [if_neg hc] at hcount
        omega

theorem lastLine_append {before piece : List Char} (h : lastLine before = []) (hline : '\n' ∉ piece) :
    lastLine (before ++ piece) = piece := by
  induction piece using List.reverseRecOn with
  | nil => rw [List.append_nil, h]
  | append_singleton piece c ih =>
    rw [← List.append_assoc, lastLine_concat, if_neg, ih]
    · exact fun hmem => hline (List.mem_append_left _ hmem)
    · rintro rfl
      exact hline (List.mem_append_right _ (List.mem_singleton_self _))

/-- A column that a line has is found at its offset. -/
theorem position_offset {cs : List Char} {i c : Nat} {l : Line} (h : (lines cs)[i]? = some l)
    (hc : c ≤ l.chars.length) : position cs (offset cs ⟨i, c⟩) = ⟨i, c⟩ := by
  obtain ⟨before, after, hcs, hstart, hcount, hlast⟩ := line_split h
  have hline : '\n' ∉ l.chars.take c := fun hmem =>
    newline_notMem_of_mem_linesFrom (List.mem_of_getElem? h) (List.mem_of_mem_take hmem)
  have hplace : offset cs ⟨i, c⟩ = size (before ++ l.chars.take c) := by
    rw [offset]
    simp only [h]
    rw [hstart, Nat.zero_add, size_append]
  have hsplit : cs = before ++ l.chars.take c ++ (l.chars.drop c ++ after) := by
    rw [List.append_assoc, ← List.append_assoc (l.chars.take c), List.take_append_drop, ← hcs]
  rw [hplace, hsplit, position_append, lastLine_append hlast hline, List.count_append, hcount,
    List.count_eq_zero.mpr hline, List.length_take, Nat.min_eq_left hc, Nat.add_zero]

/-- A column past the end of its line stands for that end. -/
theorem offset_clamps {cs : List Char} {i c : Nat} {l : Line} (h : (lines cs)[i]? = some l)
    (hc : l.chars.length ≤ c) : offset cs ⟨i, c⟩ = l.span.stop := by
  rw [offset]
  simp only [h]
  rw [List.take_of_length_le hc]
  rfl

/-! ### Order -/

theorem positionFrom_mono (p : Position) {m n : Nat} (h : m ≤ n) (cs : List Char) :
    positionFrom p m cs = positionFrom p n cs ∨
      (positionFrom p m cs).Before (positionFrom p n cs) := by
  induction cs generalizing p m n with
  | nil => exact .inl rfl
  | cons c cs ih =>
    rw [positionFrom, positionFrom]
    by_cases hn : n < c.utf8Size
    · rw [if_pos hn, if_pos (by omega)]
      exact .inl rfl
    rw [if_neg hn]
    split
    · right
      obtain hstay | hmoved := positionFrom_le (p.after c) (n - c.utf8Size) cs
      · rw [hstay]
        exact p.before_after c
      · exact (p.before_after c).trans hmoved
    · exact ih (p.after c) (by omega)

/-- An offset inside a character has the position of its start. -/
theorem position_inside (before : List Char) (c : Char) (after : List Char) {n : Nat}
    (hstart : size before ≤ n) (hstop : n < size before + c.utf8Size) :
    position (before ++ c :: after) n = position (before ++ c :: after) (size before) := by
  obtain ⟨k, rfl⟩ := Nat.exists_eq_add_of_le hstart
  have hplace := positionFrom_size_append ⟨0, 0⟩ 0 before (c :: after)
  rw [Nat.add_zero] at hplace
  rw [position, position, hplace, positionFrom_size_append, positionFrom, positionFrom,
    if_pos (by omega), if_pos c.utf8Size_pos]

/-! ### Lines take up the text -/

theorem charAt?_size_append (before after : List Char) :
    charAt? (before ++ after) (size before) = after.head? := by
  rw [charAt?, dropBytes_size_append]

theorem line_end {cs : List Char} {i : Nat} {l : Line} (h : (lines cs)[i]? = some l) :
    (∃ next, (lines cs)[i + 1]? = some next ∧ next.span.start = l.span.stop + 1 ∧
        charAt? cs l.span.stop = some '\n') ∨
      (lines cs)[i + 1]? = none ∧ l.span.stop = size cs := by
  obtain ⟨before, after, hcs, hstart, _, hlast⟩ := line_split h
  rw [Nat.zero_add] at hstart
  obtain ⟨next, hnext, hstop⟩ | ⟨hnone, hstop⟩ := stop_linesFrom h
  · refine .inl ⟨next, hnext, hstop, ?_⟩
    obtain ⟨front, behind, hsplit, hfront, hcount, hempty⟩ := line_split hnext
    rw [Nat.zero_add, hstop] at hfront
    -- the next line stands behind a line feed, the last character in front of it
    obtain ⟨front, c, rfl⟩ : ∃ front' c, front = front' ++ [c] := by
      cases front using List.reverseRecOn with
      | nil => cases hcount
      | append_singleton front c => exact ⟨front, c, rfl⟩
    have hc : c = '\n' := by
      by_contra hne
      rw [lastLine_concat, if_neg hne] at hempty
      simp at hempty
    subst hc
    rw [size_append] at hfront
    have hplace : l.span.stop = size front := by
      have hone : size ['\n'] = 1 := rfl
      omega
    rw [hplace, hsplit, List.append_assoc, charAt?_size_append]
    rfl
  · rw [Nat.zero_add] at hstop
    exact .inr ⟨hnone, hstop⟩

theorem onLine_unique {cs : List Char} {i j n : Nat} (hi : OnLine cs i n) (hj : OnLine cs j n) :
    i = j := by
  have hascending := List.pairwise_iff_getElem.mp (linesFrom_ascending 0 cs)
  have hle : ∀ {i j : Nat}, OnLine cs i n → OnLine cs j n → ¬i < j := by
    rintro i j ⟨l, hl, _, hstop⟩ ⟨m, hm, hstart, _⟩ hlt
    obtain ⟨hi, rfl⟩ := List.getElem?_eq_some_iff.mp hl
    obtain ⟨hj, rfl⟩ := List.getElem?_eq_some_iff.mp hm
    have hbefore : (lines cs)[i].span.stop < (lines cs)[j].span.start := hascending i j hi hj hlt
    omega
  have hij := hle hi hj
  have hji := hle hj hi
  omega

theorem exists_onLine {cs : List Char} {n : Nat} (h : n < size cs) : ∃ i, OnLine cs i n := by
  -- the last line that starts at the byte or before
  obtain ⟨l, hl⟩ : ∃ l, (lines cs)[0]? = some l ∧ l.span.start = 0 :=
    ⟨_, getElem?_linesFrom_zero 0 cs, rfl⟩
  have hsearch : ∀ k i l, (lines cs)[i]? = some l → l.span.start ≤ n → (lines cs).length - i = k →
      ∃ i, OnLine cs i n := by
    intro k
    induction k with
    | zero =>
      intro i l hl _ hk
      obtain ⟨hi, _⟩ := List.getElem?_eq_some_iff.mp hl
      omega
    | succ k ih =>
      intro i l hl hstart hk
      obtain ⟨next, hnext, hbehind, hfeed⟩ | ⟨_, hend⟩ := line_end hl
      · by_cases hn : n ≤ l.span.stop
        · refine ⟨i, l, hl, hstart, ?_⟩
          obtain hlt | rfl := Nat.lt_or_eq_of_le hn
          · exact .inl hlt
          · exact .inr ⟨rfl, hfeed⟩
        · exact ih (i + 1) next hnext (by omega) (by omega)
      · exact ⟨i, l, hl, hstart, .inl (by omega)⟩
  exact hsearch _ 0 l hl.1 (by omega) rfl

theorem size_of_onLine {cs : List Char} {i n : Nat} (h : OnLine cs i n) : n < size cs := by
  obtain ⟨l, hl, _, hstop⟩ := h
  obtain ⟨before, after, hcs, hstart, _⟩ := line_split hl
  have hsize := congrArg size hcs
  rw [size_append, size_append] at hsize
  have hspan : l.span.stop = l.start + size l.chars := rfl
  obtain hlt | ⟨rfl, hfeed⟩ := hstop
  · omega
  · by_contra hge
    have hend : size after = 0 := by omega
    rw [eq_nil_of_size hend, List.append_nil] at hcs
    have hplace : l.span.stop = size (before ++ l.chars) := by
      rw [size_append]
      omega
    have hnothing := charAt?_size_append (before ++ l.chars) []
    rw [List.append_nil, ← hcs] at hnothing
    rw [hplace, ← hcs, hnothing] at hfeed
    cases hfeed

/-! ### The laws of positions -/

/-- How the offsets and the positions of a text stand for each other. -/
structure Navigable (cs : List Char) : Prop where
  offset_position : ∀ n, IsBoundary cs n → offset cs (position cs n).narrow = n
  position_offset : ∀ (i c : Nat) (l : Line), (lines cs)[i]? = some l → c ≤ l.chars.length →
    (position cs (offset cs ⟨i, c⟩)).narrow = ⟨i, c⟩
  /-- A column past the end of its line stands for that end. -/
  clamps : ∀ (i c : Nat) (l : Line), (lines cs)[i]? = some l → l.chars.length ≤ c →
    offset cs ⟨i, c⟩ = l.span.stop
  monotone : ∀ m n, m ≤ n → (position cs m).narrow = (position cs n).narrow ∨
    (position cs m).narrow.Before (position cs n).narrow
  inside : ∀ before c after n, cs = before ++ c :: after → size before ≤ n →
    n < size before + c.utf8Size → (position cs n).narrow = (position cs (size before)).narrow
  /-- The last position is behind the last character of the last line. -/
  last : ∃ (i : Nat) (l : Line), (lines cs).length = i + 1 ∧ (lines cs)[i]? = some l ∧
    ∀ n, size cs ≤ n → (position cs n).narrow = ⟨i, l.chars.length⟩
  /-- The ranges of the lines hold their characters, and no line feed. -/
  ranges : ∀ (i : Nat) (l : Line), (lines cs)[i]? = some l → slice cs l.span = l.chars ∧ '\n' ∉ l.chars
  /-- Every byte of the text stands on one line, and nothing else does. -/
  tiles : ∀ n, (∃! i, OnLine cs i n) ↔ n < size cs

theorem last_position (cs : List Char) : ∃ (i : Nat) (l : Line), (lines cs).length = i + 1 ∧
    (lines cs)[i]? = some l ∧ ∀ n, size cs ≤ n → position cs n = ⟨i, l.chars.length⟩ := by
  have hlength : (lines cs).length = cs.count '\n' + 1 := by
    have hstarts := congrArg List.length (map_start_linesFrom 0 cs)
    rw [List.length_map, List.length_cons, length_lineBreaks] at hstarts
    exact hstarts
  have hline := getElem?_linesFrom 0 cs []
  rw [List.append_nil, List.takeWhile_nil, List.append_nil] at hline
  refine ⟨_, _, hlength, hline, fun n hn => ?_⟩
  have hplace := position_append cs []
  rw [List.append_nil] at hplace
  rw [← position_min_size, Nat.min_eq_right hn, hplace]

/-- In a text of fewer than `2 ^ 32` bytes, offsets between characters and positions are inverse,
positions ascend with offsets, and the lines with their line feeds take up the text. -/
theorem navigable_of_size {cs : List Char} (h : size cs < 2 ^ 32) : Navigable cs where
  offset_position n hn := by rw [narrow_position h, Text.offset_position hn]
  position_offset i c l hl hc := by rw [narrow_position h, Text.position_offset hl hc]
  clamps i c l hl hc := offset_clamps hl hc
  monotone m n hle := by
    rw [narrow_position h, narrow_position h]
    exact positionFrom_mono ⟨0, 0⟩ hle cs
  inside before c after n hcs hstart hstop := by
    rw [narrow_position h, narrow_position h, hcs]
    exact position_inside before c after hstart hstop
  last := by
    obtain ⟨i, l, hlength, hl, hlast⟩ := last_position cs
    exact ⟨i, l, hlength, hl, fun n hn => by rw [narrow_position h, hlast n hn]⟩
  ranges i l hl := by
    obtain ⟨before, after, hcs, hstart, _⟩ := line_split hl
    refine ⟨?_, newline_notMem_of_mem_linesFrom (List.mem_of_getElem? hl)⟩
    have hpiece : IsPiece cs l.span l.chars :=
      ⟨before, after, hcs, by rw [Line.span, hstart, Nat.zero_add]⟩
    exact hpiece.slice_eq
  tiles n := by
    constructor
    · rintro ⟨i, hi, _⟩
      exact size_of_onLine hi
    · intro hn
      obtain ⟨i, hi⟩ := exists_onLine hn
      exact ⟨i, hi, fun j hj => onLine_unique hj hi⟩

theorem navigable_accented :
    let cs := "ab\ncé x\r\n".toList
    size cs < 2 ^ 32 ∧ Navigable cs ∧ (position cs 5).narrow = ⟨1, 1⟩ ∧ offset cs ⟨1, 3⟩ = 7 := by
  intro cs
  have hsize : size cs < 2 ^ 32 := by decide
  have hnavigable := navigable_of_size hsize
  have hcs : cs = "ab\nc".toList ++ 'é' :: " x\r\n".toList := rfl
  refine ⟨hsize, hnavigable, ?_, by decide⟩
  rw [hnavigable.inside _ _ _ 5 hcs (by decide) (by decide)]
  decide

end SqlAtlas.Text
