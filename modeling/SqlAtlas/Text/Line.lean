import SqlAtlas.Text.Slice

/-!
# Lines and positions

A text is a list of lines, each with the byte offset where it starts. A position counts lines from
zero and, within a line, characters from zero.

Lines and columns have no bound here. Where they are kept in 32 bits, a text with more lines than that,
or with a longer line, is not modelled. Texts of less than four gibibytes are.
-/

namespace SqlAtlas.Text

set_option autoImplicit false

structure Line where
  start : Nat
  chars : List Char
deriving DecidableEq, Repr

def Line.span (l : Line) : Span := ⟨l.start, l.start + size l.chars⟩

def linesFrom (start : Nat) : List Char → List Line
  | [] => [⟨start, []⟩]
  | c :: cs =>
    let rest := linesFrom (start + c.utf8Size) cs
    if c == '\n' then ⟨start, []⟩ :: rest
    else match rest with
      | l :: ls => ⟨start, c :: l.chars⟩ :: ls
      | [] => []

/-- The lines of a text; there is always at least one. -/
def lines (cs : List Char) : List Line := linesFrom 0 cs

/-- A place by line and by character within the line, both counted from zero. -/
structure Position where
  line : Nat
  column : Nat
deriving DecidableEq, Repr, Inhabited

def Position.after (p : Position) (c : Char) : Position :=
  if c == '\n' then ⟨p.line + 1, 0⟩ else ⟨p.line, p.column + 1⟩

def positionFrom (p : Position) (n : Nat) : List Char → Position
  | [] => p
  | c :: cs => if n < c.utf8Size then p else positionFrom (p.after c) (n - c.utf8Size) cs

/-- The position of a byte offset. An offset inside a character stands for the character's start,
one past the end for the last position. -/
def position (cs : List Char) (offset : Nat) : Position := positionFrom ⟨0, 0⟩ offset cs

/-- The byte offset of a position. A column past the end of its line stands for that end, a line
past the last for the end of the text. -/
def offset (cs : List Char) (p : Position) : Nat :=
  match (lines cs)[p.line]? with
  | some l => l.start + size (l.chars.take p.column)
  | none => size cs

/-- A stretch of one line: its line, and the columns where it starts and ends. -/
structure Extent where
  line : Nat
  first : Nat
  last : Nat
deriving DecidableEq, Repr, Inhabited

/-- The extent of a byte range that stays within one line. -/
def extent (cs : List Char) (s : Span) : Extent :=
  let p := position cs s.start
  ⟨p.line, p.column, (position cs s.stop).column⟩

end SqlAtlas.Text
