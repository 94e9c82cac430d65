import SqlAtlas.Grammar.Ast

/-!
# Reading tokens

A parser takes tokens from the front of a list. It fails when the tokens do not fit, and it fails
for good when the text nests too deeply: only the first kind of failure lets another rule try.
-/

namespace SqlAtlas.Grammar

set_option autoImplicit false

/-- The characters beyond ASCII whose uppercase form is made of ASCII letters. -/
def asciiCapitals : List (Char × String) :=
  [('\u00df', "SS"), ('\u0131', "I"), ('\u017f', "S"), ('\ufb00', "FF"), ('\ufb01', "FI"),
   ('\ufb02', "FL"), ('\ufb03', "FFI"), ('\ufb04', "FFL"), ('\ufb05', "ST"), ('\ufb06', "ST")]

/-- The uppercase form of a character, as far as it can be part of a keyword. -/
def capital (c : Char) : List Char :=
  match asciiCapitals.lookup c with
  | some letters => letters.toList
  | none => [c.toUpper]

/-- A token, with the uppercase form of a word that is not delimited. -/
structure Item where
  token : Token
  keyword : Option String
deriving DecidableEq, Repr, Inhabited

namespace Item

def ofToken (t : Token) : Item :=
  ⟨t, t.bareWord?.map fun w => String.ofList (w.flatMap capital)⟩

def isWord (i : Item) (k : String) : Bool := i.keyword == some k

/-- The identifier that an item is: a word, or a plain string. -/
def ident? (i : Item) : Option Ident :=
  match i.token with
  | .word value quote => some ⟨value, quote⟩
  | .string value => some ⟨value, some '\''⟩
  | _ => none

end Item

inductive Failure where
  | unexpected
  | tooDeep
deriving DecidableEq, Repr

abbrev Parser := StateT (List Item) (Except Failure)

def operator (spelling : String) : Token := .operator spelling.toList

namespace Parser

variable {α β : Type}

def fail : Parser α := throw .unexpected

def peek : Parser (Option Item) := return (← get).head?

def peekToken (t : Token) : Parser Bool := return (← get).head?.any (·.token == t)

def peekWord (k : String) : Parser Bool := return (← get).head?.any (·.isWord k)

def peekAny (ks : List String) : Parser Bool :=
  return (← get).head?.any fun i => ks.any i.isWord

def next : Parser Item := do
  match ← get with
  | i :: rest => set rest; return i
  | [] => fail

def token (t : Token) : Parser Bool := do
  if ← peekToken t then
    discard next
    return true
  else return false

def expect (t : Token) : Parser Unit := do
  unless ← token t do fail

def word (k : String) : Parser Bool := do
  if ← peekWord k then
    discard next
    return true
  else return false

def words (ks : List String) : Parser Bool := do
  let items ← get
  if (items.take ks.length).map (·.keyword) == ks.map some then
    set (items.drop ks.length)
    return true
  else return false

def expectWord (k : String) : Parser Unit := do
  unless ← word k do fail

def expectWords : List String → Parser Unit
  | [] => pure ()
  | k :: ks => do
    expectWord k
    expectWords ks

def anyWord (ks : List String) : Parser (Option String) := do
  let items ← get
  match ks.find? fun k => items.head?.any (·.isWord k) with
  | some k =>
    discard next
    return some k
  | none => return none

def anyWords : List (List String) → Parser Bool
  | [] => return false
  | ks :: more => do
    if ← words ks then return true else anyWords more

def expectAny (ks : List String) : Parser String := do
  match ← anyWord ks with
  | some k => return k
  | none => fail

/-- Tries a parser; if the tokens do not fit, none are taken. -/
def maybe (p : Parser α) : Parser (Option α) := fun items =>
  match p items with
  | .ok (a, rest) => .ok (some a, rest)
  | .error .unexpected => .ok (none, items)
  | .error .tooDeep => .error .tooDeep

/-- The first parser, or the second one where the first fails; if both fail, so does the first. -/
def either (p : Parser α) (q : Parser β) : Parser (α ⊕ β) := fun items =>
  match p items with
  | .ok (a, rest) => .ok (.inl a, rest)
  | .error failure =>
    match q items with
    | .ok (b, rest) => .ok (.inr b, rest)
    | .error _ => .error failure

/-- A parser that runs only if `b` holds. -/
def optional (b : Parser Bool) (p : Parser (List α)) : Parser (List α) := do
  if ← b then p else return []

def separatedUpTo (separator : Token) (p : Parser α) : Nat → Parser (List α)
  | 0 => fail
  | fuel + 1 => do
    let a ← p
    if ← token separator then return a :: (← separatedUpTo separator p fuel)
    else return [a]

def commaSeparated (p : Parser α) : Parser (List α) := do
  separatedUpTo .comma p ((← get).length + 1)

def periodSeparated (p : Parser α) : Parser (List α) := do
  separatedUpTo .period p ((← get).length + 1)

def manyUpTo (p : Parser (Option α)) : Nat → Parser (List α)
  | 0 => fail
  | fuel + 1 => do
    match ← p with
    | some a => return a :: (← manyUpTo p fuel)
    | none => return []

def many (p : Parser (Option α)) : Parser (List α) := do
  manyUpTo p ((← get).length + 1)

def parenthesized (p : Parser α) : Parser α := do
  expect .openParen
  let a ← p
  expect .closeParen
  return a

def identifier : Parser Ident := do
  match (← next).ident? with
  | some i => return i
  | none => fail

def objectName : Parser (List Ident) := periodSeparated identifier

def columnList : Parser (List Ident) := parenthesized (commaSeparated identifier)

def optionalColumnList : Parser (List Ident) := do
  if ← peekToken .openParen then columnList else return []

end Parser

end SqlAtlas.Grammar
