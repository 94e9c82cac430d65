import SqlAtlas.Text.Blank

/-!
# Byte offsets into text

Text is a list of characters. Places in it are byte offsets of its UTF-8 form, so that a place
means the same before and after a piece of text has been blanked out byte for byte.
-/

namespace SqlAtlas.Text

set_option autoImplicit false

def size : List Char → Nat
  | [] => 0
  | c :: cs => c.utf8Size + size cs

@[simp] theorem size_nil : size [] = 0 := rfl

@[simp] theorem size_cons (c : Char) (cs : List Char) : size (c :: cs) = c.utf8Size + size cs := rfl

@[simp] theorem size_append (as bs : List Char) : size (as ++ bs) = size as + size bs := by
  induction as with
  | nil => simp
  | cons c cs ih => simp [ih, Nat.add_assoc]

/-- The characters that start at byte `n` or later. -/
def dropBytes : Nat → List Char → List Char
  | 0, cs => cs
  | _ + 1, [] => []
  | n + 1, c :: cs => dropBytes (n + 1 - c.utf8Size) cs

/-- The characters that start before byte `n`. -/
def takeBytes : Nat → List Char → List Char
  | 0, _ => []
  | _ + 1, [] => []
  | n + 1, c :: cs => c :: takeBytes (n + 1 - c.utf8Size) cs

/-- A range of byte offsets, the end excluded. -/
structure Span where
  start : Nat
  stop : Nat
deriving DecidableEq, Repr, Inhabited

def Span.isEmpty (s : Span) : Bool := decide (s.stop ≤ s.start)

def slice (cs : List Char) (s : Span) : List Char :=
  takeBytes (s.stop - s.start) (dropBytes s.start cs)

def charAt? (cs : List Char) (n : Nat) : Option Char := (dropBytes n cs).head?

def charBefore? (cs : List Char) (n : Nat) : Option Char := (takeBytes n cs).getLast?

/-- A place between two characters of `cs`, or at either end. -/
def IsBoundary (cs : List Char) (n : Nat) : Prop := ∃ l r, cs = l ++ r ∧ size l = n

/-- Shrinks a range so that it neither starts nor ends with an ASCII blank. -/
def trimSpan (cs : List Char) (s : Span) : Span :=
  let stop := min s.stop (size cs)
  let chars := slice cs ⟨s.start, stop⟩
  let rest := chars.dropWhile isAsciiBlank
  let kept := (rest.reverse.dropWhile isAsciiBlank).length
  ⟨s.start + (chars.length - rest.length), stop - (rest.length - kept)⟩

end SqlAtlas.Text
