import SqlAtlas.Text.Block

/-!
# Scans byte by byte

Masking, and the search for plain code, on the bytes of a text. Each of the two scans has a table of its
own for what opens and closes comments, literals and delimited names. A turn of a scan reads one byte, or
both bytes of a mark of two. Blocks and rows are cut at the bytes of plain code.

As for characters, the depth of a comment has no bound, and texts that nest comments too deep for a
count in 32 bits are not modelled.
-/

namespace SqlAtlas.Text.Byte

set_option autoImplicit false

inductive State where
  | code
  | lineComment
  /-- As many block comments deep as `depth`. -/
  | blockComment (depth : Nat)
  | literal
  | quotedName
  | bracketedName
deriving DecidableEq, Repr

structure Turn where
  state : State
  /-- Whether the byte behind is read too. -/
  pair : Bool
  /-- Whether what is read is marked: to be blanked, or as plain code. -/
  mark : Bool
deriving DecidableEq, Repr

/-- A turn of masking: marked is what is blanked. -/
def maskTurn (literals : Bool) (s : State) (b : UInt8) (next : Option UInt8) : Turn :=
  match s with
  | .code =>
    if b == '-'.toUInt8 && next == some '-'.toUInt8 then ⟨.lineComment, true, true⟩
    else if b == '/'.toUInt8 && next == some '*'.toUInt8 then ⟨.blockComment 1, true, true⟩
    else if b == '\''.toUInt8 then ⟨.literal, false, false⟩
    else if b == '"'.toUInt8 then ⟨.quotedName, false, false⟩
    else if b == '['.toUInt8 then ⟨.bracketedName, false, false⟩
    else ⟨.code, false, false⟩
  | .lineComment =>
    if b == '\n'.toUInt8 then ⟨.code, false, false⟩ else ⟨.lineComment, false, true⟩
  | .blockComment depth =>
    if b == '*'.toUInt8 && next == some '/'.toUInt8 then
      ⟨if depth == 1 then .code else .blockComment (depth - 1), true, true⟩
    else if b == '/'.toUInt8 && next == some '*'.toUInt8 then
      ⟨.blockComment (depth + 1), true, true⟩
    else ⟨.blockComment depth, false, true⟩
  | .literal =>
    if b == '\''.toUInt8 then
      if next == some '\''.toUInt8 then ⟨.literal, true, literals⟩ else ⟨.code, false, false⟩
    else ⟨.literal, false, literals⟩
  | .quotedName =>
    if b == '"'.toUInt8 then
      if next == some '"'.toUInt8 then ⟨.quotedName, true, false⟩ else ⟨.code, false, false⟩
    else ⟨.quotedName, false, false⟩
  | .bracketedName =>
    if b == ']'.toUInt8 then
      if next == some ']'.toUInt8 then ⟨.bracketedName, true, false⟩ else ⟨.code, false, false⟩
    else ⟨.bracketedName, false, false⟩

/-- A turn of the search for plain code: marked is what is found. -/
def codeTurn (s : State) (b : UInt8) (next : Option UInt8) : Turn :=
  match s with
  | .code =>
    if b == '-'.toUInt8 && next == some '-'.toUInt8 then ⟨.lineComment, true, false⟩
    else if b == '/'.toUInt8 && next == some '*'.toUInt8 then ⟨.blockComment 1, true, false⟩
    else if b == '\''.toUInt8 then ⟨.literal, false, false⟩
    else if b == '"'.toUInt8 then ⟨.quotedName, false, false⟩
    else if b == '['.toUInt8 then ⟨.bracketedName, false, false⟩
    else ⟨.code, false, true⟩
  | .lineComment => ⟨if b == '\n'.toUInt8 then .code else .lineComment, false, false⟩
  | .blockComment depth =>
    if b == '*'.toUInt8 && next == some '/'.toUInt8 then
      ⟨if depth == 1 then .code else .blockComment (depth - 1), true, false⟩
    else if b == '/'.toUInt8 && next == some '*'.toUInt8 then
      ⟨.blockComment (depth + 1), true, false⟩
    else ⟨.blockComment depth, false, false⟩
  | .literal =>
    if b == '\''.toUInt8 then
      if next == some '\''.toUInt8 then ⟨.literal, true, false⟩ else ⟨.code, false, false⟩
    else ⟨.literal, false, false⟩
  | .quotedName =>
    if b == '"'.toUInt8 then
      if next == some '"'.toUInt8 then ⟨.quotedName, true, false⟩ else ⟨.code, false, false⟩
    else ⟨.quotedName, false, false⟩
  | .bracketedName =>
    if b == ']'.toUInt8 then
      if next == some ']'.toUInt8 then ⟨.bracketedName, true, false⟩ else ⟨.code, false, false⟩
    else ⟨.bracketedName, false, false⟩

def scan (turn : State → UInt8 → Option UInt8 → Turn) : State → List UInt8 → List (UInt8 × Bool)
  | _, [] => []
  | s, [b] => [(b, (turn s b none).mark)]
  | s, b :: c :: rest =>
    let t := turn s b (some c)
    if t.pair then (b, t.mark) :: (c, t.mark) :: scan turn t.state rest
    else (b, t.mark) :: scan turn t.state (c :: rest)

def blanked (b : UInt8) : UInt8 :=
  if b == '\n'.toUInt8 || b == '\r'.toUInt8 then b else ' '.toUInt8

def shown (p : UInt8 × Bool) : UInt8 := if p.2 then blanked p.1 else p.1

/-- The bytes of a text with its comments blanked, and the insides of its literals if they are masked
too. -/
def mask (literals : Bool) (bytes : List UInt8) : List UInt8 :=
  (scan (maskTurn literals) .code bytes).map shown

def marked (offset : Nat) : List (UInt8 × Bool) → List (Nat × UInt8)
  | [] => []
  | (b, mark) :: rest =>
    if mark then (offset, b) :: marked (offset + 1) rest else marked (offset + 1) rest

/-- The bytes of plain code in a range, the scan starting in plain code at its start. -/
def codeIn (bytes : List UInt8) (s : Span) : List (Nat × UInt8) :=
  (marked s.start (scan codeTurn .code (bytes.drop s.start))).takeWhile fun p => decide (p.1 < s.stop)

def code (bytes : List UInt8) : List (Nat × UInt8) := codeIn bytes ⟨0, bytes.length⟩

def closingIn (depth : Nat) : List (Nat × UInt8) → Option Nat
  | [] => none
  | (i, b) :: rest =>
    if b == '('.toUInt8 then closingIn (depth + 1) rest
    else if b == ')'.toUInt8 then
      if depth - 1 == 0 then some i else closingIn (depth - 1) rest
    else closingIn depth rest

def matchingParen? (bytes : List UInt8) (start : Nat) : Option Nat :=
  if bytes[start]? == some '('.toUInt8 then closingIn 0 (codeIn bytes ⟨start, bytes.length⟩) else none

def levelAfter (depth : Nat) (b : UInt8) : Nat :=
  if b == '('.toUInt8 then depth + 1 else if b == ')'.toUInt8 then depth - 1 else depth

def commasIn (depth : Nat) : List (Nat × UInt8) → List Nat
  | [] => []
  | (i, b) :: rest =>
    if b == ','.toUInt8 && depth == 0 then i :: commasIn depth rest
    else commasIn (levelAfter depth b) rest

def isBlank (b : UInt8) : Bool :=
  b == ' '.toUInt8 || b == '\t'.toUInt8 || b == '\n'.toUInt8 || b == '\x0c'.toUInt8 || b == '\r'.toUInt8

/-- Shrinks a range so that it neither starts nor ends with a blank. -/
def trim (bytes : List UInt8) (s : Span) : Span :=
  let stop := min s.stop bytes.length
  let within := (bytes.take stop).drop s.start
  let rest := within.dropWhile isBlank
  let kept := (rest.reverse.dropWhile isBlank).length
  ⟨s.start + (within.length - rest.length), stop - (rest.length - kept)⟩

def splitTopLevel (bytes : List UInt8) (s : Span) : List Span :=
  let pieces := cutAt s.start (min s.stop bytes.length) (commasIn 0 (codeIn bytes s))
  (pieces.map (trim bytes)).filter fun r => !r.isEmpty

end SqlAtlas.Text.Byte
