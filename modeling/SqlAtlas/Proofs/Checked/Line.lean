import SqlAtlas.Proofs.Checked.Access
import SqlAtlas.Proofs.Text.Line

/-!
# Positions, checked

The offsets where lines start are kept in a list. The line of a place is the last one that starts at
the place or before, and its column is counted in the slice between the two.
-/

namespace SqlAtlas.Checked

set_option autoImplicit false

open Text

def lineStarts (cs : List Char) : List Nat := 0 :: lineBreaks 0 cs

/-- The last place between characters at byte `n` or before. -/
def floor (cs : List Char) : Nat → Nat
  | 0 => 0
  | n + 1 => if atBoundary cs (n + 1) then n + 1 else floor cs n

def position (cs : List Char) (offset : Nat) : Except Fault Position := do
  let place := floor cs (min offset (size cs))
  let line ← sub ((lineStarts cs).countP fun start => decide (start ≤ place)) 1
  let start ← get (lineStarts cs) line
  let before ← slice cs ⟨start, place⟩
  return ⟨line, before.length⟩

def extent (cs : List Char) (s : Span) : Except Fault Extent := do
  let p ← position cs s.start
  let q ← position cs s.stop
  return ⟨p.line, p.column, q.column⟩

def lineSpan (cs : List Char) (line : Nat) : Except Fault (Option Span) :=
  match (lineStarts cs)[line]? with
  | none => pure none
  | some start => do
    let stop ← match (lineStarts cs)[line + 1]? with
      | some next => sub next 1
      | none => pure (size cs)
    return some ⟨start, max start stop⟩

def offset (cs : List Char) (p : Position) : Except Fault Nat := do
  match ← lineSpan cs p.line with
  | none => return size cs
  | some line =>
    let chars ← slice cs line
    return line.start + size (chars.take p.column)

/-! ### The plain positions -/

theorem lineStarts_eq (cs : List Char) : lineStarts cs = (lines cs).map (·.start) :=
  (map_start_linesFrom 0 cs).symm

theorem isBoundary_floor (cs : List Char) (n : Nat) : IsBoundary cs (floor cs n) := by
  induction n with
  | zero => exact isBoundary_zero cs
  | succ n ih =>
    rw [floor]
    split
    · rename_i h
      exact atBoundary_iff.mp h
    · exact ih

theorem position_floor (cs : List Char) (n : Nat) : Text.position cs (floor cs n) = Text.position cs n := by
  induction n with
  | zero => rfl
  | succ n ih =>
    rw [floor]
    split
    · rfl
    · rename_i h
      rw [ih, Text.position, Text.position, positionFrom_succ]
      rwa [atBoundary_iff] at h

theorem position_eq (cs : List Char) (offset : Nat) :
    position cs offset = pure (Text.position cs offset) := by
  have hplace : Text.position cs (floor cs (min offset (size cs))) = Text.position cs offset := by
    rw [position_floor, position_min_size]
  obtain ⟨l, r, hcs, hsize⟩ := isBoundary_floor cs (min offset (size cs))
  rw [← hplace, position, ← hsize]
  clear hplace hsize
  subst hcs
  have hstart : (lineStarts (l ++ r))[l.count '\n']? = some (size l - size (lastLine l)) := by
    rw [lineStarts_eq, List.getElem?_map, lines, getElem?_linesFrom, Option.map_some, Nat.zero_add]
  have hpiece : IsPiece (l ++ r) ⟨size l - size (lastLine l), size l⟩ (lastLine l) := by
    obtain ⟨lead, hlead⟩ := lastLine_suffix l
    have hsize := congrArg size hlead
    rw [size_append] at hsize
    refine ⟨lead, r, by rw [← List.append_assoc, ← hlead], ?_⟩
    rw [Span.mk.injEq]
    omega
  rw [lineStarts, countP_lineBreaks, ← lineStarts, sub_of_le (Nat.le_add_left 1 _), pure_bind,
    Nat.add_sub_cancel, get_of_eq hstart, pure_bind, slice_piece hpiece, pure_bind, position_append]

theorem extent_eq (cs : List Char) (s : Span) : extent cs s = pure (Text.extent cs s) := by
  simp only [extent, position_eq, pure_bind]
  rfl

theorem lineSpan_eq (cs : List Char) (line : Nat) :
    lineSpan cs line = pure ((lines cs)[line]?.map Line.span) := by
  rw [lineSpan, lineStarts_eq, List.getElem?_map, List.getElem?_map]
  cases hl : (lines cs)[line]? with
  | none => rfl
  | some l =>
    have hle : l.start ≤ l.span.stop := Nat.le_add_right _ _
    rcases stop_linesFrom hl with ⟨next, hnext, hstart⟩ | ⟨hnone, hstop⟩
    · have hstop : sub next.start 1 = pure l.span.stop := by
        rw [hstart, sub_of_le (Nat.le_add_left 1 _), Nat.add_sub_cancel]
      simp only [Option.map_some, lines, hnext, hstop, pure_bind, Nat.max_eq_right hle]
      rfl
    · rw [Nat.zero_add] at hstop
      simp only [Option.map_some, lines, hnone, Option.map_none, pure_bind, ← hstop,
        Nat.max_eq_right hle]
      rfl

theorem offset_eq (cs : List Char) (p : Position) : offset cs p = pure (Text.offset cs p) := by
  rw [offset, lineSpan_eq, pure_bind, Text.offset]
  cases hl : (lines cs)[p.line]? with
  | none => rfl
  | some l =>
    obtain ⟨before, after, hcs, hstart⟩ := linesFrom_piece (List.mem_of_getElem? hl)
    rw [Nat.zero_add] at hstart
    have hpiece : IsPiece cs l.span l.chars := ⟨before, after, hcs, by rw [Line.span, hstart]⟩
    simp only [Option.map_some, slice_piece hpiece, pure_bind]
    rfl

end SqlAtlas.Checked
