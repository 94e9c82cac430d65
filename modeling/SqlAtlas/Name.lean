import SqlAtlas.Text.Lower
import SqlAtlas.Text.Slice

/-!
# Names of tables, columns and routines

A name is written in many ways: bracketed, quoted, in any case, with or without the default
schema. Its normal form is what the index stores and compares.
-/

namespace SqlAtlas

set_option autoImplicit false

open Text

def splitOnChar (sep : Char) : List Char → List (List Char)
  | [] => [[]]
  | c :: cs =>
    let rest := splitOnChar sep cs
    if c == sep then [] :: rest
    else match rest with
      | part :: parts => (c :: part) :: parts
      | [] => [[c]]

def joinWithChar (sep : Char) : List (List Char) → List Char
  | [] => []
  | [part] => part
  | part :: parts => part ++ sep :: joinWithChar sep parts

def isNameDelimiter (c : Char) : Bool :=
  c == '[' || c == ']' || c == '"' || c == '\x60'

def unwrapIdentifier (raw : List Char) : List Char :=
  trim (trimBy isNameDelimiter (trim raw))

def defaultSchema : List Char := ['d', 'b', 'o']

/-- The normal form of a possibly qualified name: every part unwrapped and in lower case, and a
default schema in front of a single part left out. A name of empty parts is empty. -/
def normalizeName (raw : List Char) : List Char :=
  let parts := (splitOnChar '.' raw).map fun part => lower (unwrapIdentifier part)
  if parts.all (·.isEmpty) then []
  else match parts with
    | [schema, object] => if schema == defaultSchema then object else joinWithChar '.' parts
    | _ => joinWithChar '.' parts

def lastPart (chars : List Char) : List Char :=
  (chars.reverse.takeWhile (· != '.')).reverse

structure Name where
  chars : List Char
deriving DecidableEq, Repr, Inhabited

namespace Name

def ofChars (raw : List Char) : Name := ⟨normalizeName raw⟩

def ofText (raw : String) : Name := ofChars raw.toList

def text (n : Name) : String := String.ofList n.chars

def qualified (table column : Name) : Name := ⟨table.chars ++ '.' :: column.chars⟩

def isEmpty (n : Name) : Bool := n.chars.isEmpty

def unqualified (n : Name) : List Char := lastPart n.chars

def isLocal (n : Name) : Bool :=
  n.chars.head? == some '@' || n.chars.head? == some '#'

/-- The order of names: by code points. -/
def before (a b : Name) : Bool := decide (a.chars < b.chars)

end Name

/-- Cuts a spelling at the dots outside delimiters; `close` ends the delimiter the scan is in. -/
def partSpansFrom (close : Option Char) (start offset : Nat) : List Char → List Span
  | [] => [⟨start, offset⟩]
  | c :: cs =>
    let next := offset + c.utf8Size
    match close with
    | some q => partSpansFrom (if c == q then none else close) start next cs
    | none =>
      if c == '[' then partSpansFrom (some ']') start next cs
      else if c == '"' then partSpansFrom (some '"') start next cs
      else if c == '.' then ⟨start, offset⟩ :: partSpansFrom none next next cs
      else partSpansFrom none start next cs

def innerSpan (raw : List Char) (part : Span) : Span :=
  let s := trimSpan raw part
  let chars := slice raw s
  if decide (2 ≤ s.stop - s.start) &&
      ((chars.head? == some '[' && chars.getLast? == some ']') ||
        (chars.head? == some '"' && chars.getLast? == some '"')) then
    ⟨s.start + 1, s.stop - 1⟩
  else s

/-- The places of the parts of a possibly qualified spelling, without blanks and delimiters. -/
def partSpans (raw : List Char) : List Span :=
  (partSpansFrom none 0 0 raw).map (innerSpan raw)

def displayName (raw : List Char) : List Char :=
  joinWithChar '.' ((partSpans raw).map (slice raw))

def isBracketed (raw : List Char) : Bool :=
  let t := trim raw
  t.head? == some '[' && t.getLast? == some ']'

def isDoubleQuoted (raw : List Char) : Bool :=
  let t := trim raw
  decide (2 ≤ size t) && t.head? == some '"' && t.getLast? == some '"'

def isDelimited (raw : List Char) : Bool := isBracketed raw || isDoubleQuoted raw

def isLocalSpelling (raw : List Char) : Bool :=
  raw.head? == some '@' || raw.head? == some '#'

end SqlAtlas
