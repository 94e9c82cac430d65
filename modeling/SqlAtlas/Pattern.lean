import SqlAtlas.Text.Slice
import SqlAtlas.Text.Word

/-!
# Patterns in masked text

Recognisers for words and identifiers at the front of a text. Each gives the number of characters
it takes, always the most it can take. A search tries every place from left to right and goes on
after each find.
-/

namespace SqlAtlas.Pattern

set_option autoImplicit false

open Text

/-- Whether `c` is the upper-case ASCII letter `u` in some case. The long s is a case of S, the
Kelvin sign a case of K. -/
def isCaseOf (u c : Char) : Bool :=
  c.toUpper == u || (u == 'S' && c == '\u017f') || (u == 'K' && c == '\u212a')

def word? (word : List Char) (cs : List Char) : Option Nat :=
  match word, cs with
  | [], _ => some 0
  | _ :: _, [] => none
  | u :: us, c :: rest => if isCaseOf u c then (word? us rest).map (· + 1) else none

def keyword? (word : String) (cs : List Char) : Option Nat := word? word.toList cs

/-- The length of a whole word at the front: no word character follows it. -/
def wholeKeyword? (word : String) (cs : List Char) : Option Nat :=
  (keyword? word cs).filter fun n => !isWordAt (cs.drop n).head?

def blanks (cs : List Char) : Nat := (cs.takeWhile isBlank).length

def someBlanks? (cs : List Char) : Option Nat :=
  match blanks cs with
  | 0 => none
  | n + 1 => some (n + 1)

def chain? (steps : List (List Char → Option Nat)) (cs : List Char) : Option Nat :=
  match steps with
  | [] => some 0
  | f :: fs => do
    let n ← f cs
    let m ← chain? fs (cs.drop n)
    return n + m

def optionally (f : List Char → Option Nat) (cs : List Char) : Nat := (f cs).getD 0

def optional? (f : List Char → Option Nat) (cs : List Char) : Option Nat := some (optionally f cs)

def blanks? (cs : List Char) : Option Nat := some (blanks cs)

def char? (c : Char) (cs : List Char) : Option Nat :=
  if cs.head? == some c then some 1 else none

def isIdentifierMark (c : Char) : Bool := c == '_' || c == '@' || c == '#' || c == '$'

/-- Whether a character may start a bare identifier. With `folded`, so may any other case of a
letter: the iota subscript is one of iota. -/
def startsIdentifier (folded : Bool) (c : Char) : Bool :=
  isLetter c || isIdentifierMark c || (folded && c == '\u0345')

def continuesIdentifier (folded : Bool) (c : Char) : Bool :=
  startsIdentifier folded c || isNumber c

/-- The length of a delimited identifier after its opening mark: up to its closing mark on the same
line. -/
def delimitedRest? (close : Char) (cs : List Char) : Option Nat :=
  let inside := cs.takeWhile fun c => c != close && c != '\n'
  if (cs.drop inside.length).head? == some close then some (inside.length + 1) else none

/-- The length of the identifier at the front: bracketed, quoted or bare. -/
def identifier? (folded : Bool) (cs : List Char) : Option Nat :=
  match cs with
  | [] => none
  | c :: rest =>
    if c == '[' then (delimitedRest? ']' rest).map (· + 1)
    else if c == '"' then (delimitedRest? '"' rest).map (· + 1)
    else if startsIdentifier folded c then
      some ((rest.takeWhile (continuesIdentifier folded)).length + 1)
    else none

def dotPart? (folded : Bool) (cs : List Char) : Option Nat :=
  chain? [blanks?, char? '.', blanks?, identifier? folded] cs

/-- The length of at most `limit` further parts of a dotted name. -/
def dotParts (folded : Bool) (limit : Nat) (cs : List Char) : Nat :=
  match limit with
  | 0 => 0
  | k + 1 =>
    match dotPart? folded cs with
    | some n => n + dotParts folded k (cs.drop n)
    | none => 0

def dottedName? (folded : Bool) (limit : Nat) (cs : List Char) : Option Nat :=
  (identifier? folded cs).map fun n => n + dotParts folded limit (cs.drop n)

/-- A find: what was found, at a byte offset. -/
structure Found (α : Type) where
  offset : Nat
  value : α

/-- All finds from left to right in a text at byte `offset`, after the character `prev`. The
recogniser sees the character before and gives its find with the number of characters it takes
after the first. -/
def findAllFrom {α : Type} (recognise : Option Char → List Char → Option (α × Nat))
    (prev : Option Char) (offset : Nat) : List Char → List (Found α)
  | [] => []
  | c :: cs =>
    match recognise prev (c :: cs) with
    | some (a, more) =>
      let taken := c :: cs.take more
      ⟨offset, a⟩ :: findAllFrom recognise taken.getLast? (offset + size taken) (cs.drop more)
    | none => findAllFrom recognise (some c) (offset + c.utf8Size) cs
termination_by cs => cs.length
decreasing_by all_goals simp only [List.length_cons, List.length_drop]; omega

def findAll {α : Type} (recognise : Option Char → List Char → Option (α × Nat)) (offset : Nat)
    (cs : List Char) : List (Found α) :=
  findAllFrom recognise none offset cs

def spanAfter (offset : Nat) (cs : List Char) (skip count : Nat) : Span :=
  let start := offset + size (cs.take skip)
  ⟨start, start + size ((cs.drop skip).take count)⟩

end SqlAtlas.Pattern
