import SqlAtlas.Text.Region

/-!
# Parenthesised blocks and top-level separators

Parentheses, commas, semicolons and keywords count only where they are plain code. A closing
parenthesis without an opening one leaves the depth at zero.
-/

namespace SqlAtlas.Text

set_option autoImplicit false

def depthAfter (depth : Nat) (c : Char) : Nat :=
  if c == '(' then depth + 1 else if c == ')' then depth - 1 else depth

def closingIn (depth : Nat) : List (Nat × Char) → Option Nat
  | [] => none
  | (i, c) :: rest =>
    if c == ')' && depth ≤ 1 then some i else closingIn (depthAfter depth c) rest

/-- The offset of the parenthesis that closes the one at `start`. -/
def matchingParen? (cs : List Char) (start : Nat) : Option Nat :=
  if charAt? cs start == some '(' then closingIn 0 (codeIn cs ⟨start, size cs⟩) else none

/-- Cuts `start, …, stop` at every offset of the list. -/
def cutAt (start stop : Nat) : List Nat → List Span
  | [] => [⟨start, stop⟩]
  | i :: rest => ⟨start, i⟩ :: cutAt (i + 1) stop rest

def commasIn (depth : Nat) : List (Nat × Char) → List Nat
  | [] => []
  | (i, c) :: rest =>
    if c == ',' && depth == 0 then i :: commasIn depth rest
    else commasIn (depthAfter depth c) rest

/-- The trimmed pieces that are not empty. -/
def trimmedPieces (cs : List Char) (pieces : List Span) : List Span :=
  (pieces.map (trimSpan cs)).filter fun s => !s.isEmpty

/-- The pieces of a range between its commas outside parentheses, trimmed; empty ones are left
out. -/
def splitTopLevel (cs : List Char) (s : Span) : List Span :=
  trimmedPieces cs (cutAt s.start (min s.stop (size cs)) (commasIn 0 (codeIn cs s)))

/-- The pieces of a text between its semicolons, trimmed; empty ones are left out. -/
def splitOnSemicolons (cs : List Char) : List Span :=
  let marks := (codeIn cs ⟨0, size cs⟩).filter fun p => p.2 == ';'
  trimmedPieces cs (cutAt 0 (size cs) (marks.map (·.1)))

/-- Letters, digits, `_ @ # $` and every character beyond ASCII. -/
def isNamePart (c : Char) : Bool :=
  isAsciiAlphanumeric c || c == '_' || c == '@' || c == '#' || c == '$' || !isAscii c

/-- Whether `cs` starts with `word`, the case of ASCII letters aside. -/
def startsWithFold : List Char → List Char → Bool
  | [], _ => true
  | _ :: _, [] => false
  | w :: ws, c :: cs => w.toLower == c.toLower && startsWithFold ws cs

/-- Whether the whole word `word` stands at byte `i` and ends within `stop`. -/
def wordAt (cs : List Char) (stop : Nat) (word : List Char) (i : Nat) : Bool :=
  let last := i + size word
  decide (last ≤ stop) && startsWithFold word (dropBytes i cs) &&
    !(charBefore? cs i).any isNamePart && !(charAt? cs last).any isNamePart

def wordIn (cs : List Char) (stop : Nat) (word : List Char) (depth : Nat) :
    List (Nat × Char) → Option Nat
  | [] => none
  | (i, c) :: rest =>
    if depth == 0 && wordAt cs stop word i then some i
    else wordIn cs stop word (depthAfter depth c) rest

def findTopLevelWord? (cs : List Char) (s : Span) (word : List Char) : Option Nat :=
  wordIn cs s.stop word 0 (codeIn cs s)

end SqlAtlas.Text
