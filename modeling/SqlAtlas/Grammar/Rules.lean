import SqlAtlas.Grammar.Vocabulary

/-!
# Rules within rules

Statements, queries and expressions hold one another. A rule takes the three it may need from a
`Rules` value, which belongs to the next level of nesting; the levels run out after a fixed number,
so a text that nests too deeply is refused.
-/

namespace SqlAtlas.Grammar

set_option autoImplicit false

open SqlAtlas.Grammar.Parser

/-- The rules of one level of nesting. -/
structure Rules where
  dialect : Dialect
  statement : Parser Statement
  query : Parser Query
  /-- An expression whose operators all bind tighter than the given power. -/
  expression : Nat → Parser Expr

namespace Rules

def exhausted (d : Dialect) : Rules :=
  ⟨d, throw .tooDeep, throw .tooDeep, fun _ => throw .tooDeep⟩

def expr (r : Rules) : Parser Expr := r.expression 0

def exprs (r : Rules) : Parser (List Expr) := commaSeparated r.expr

def exprAfter (r : Rules) (k : String) : Parser (List Expr) :=
  optional (word k) (return [← r.expr])

end Rules

def peekQuery : Parser Bool := peekAny ["SELECT", "WITH"]

def wholeNumber : Parser Nat := do
  match (← next).token with
  | .number digits =>
    let n := Scan.numeral 10 digits
    if digits.all Char.isDigit && n < UInt64.size then return n else fail
  | _ => fail

/-- A literal string, or a word that may stand for one. -/
def literalString (d : Dialect) : Parser Unit := do
  let i ← next
  match i.token with
  | .string _ => pure ()
  | .escaped => unless d = .generic do fail
  | _ => unless i.isPlainWord do fail

def value (d : Dialect) : Parser Token := do
  let i ← next
  match i.token with
  | .word _ none =>
    if i.isWord "NULL" || (d ≠ .tsql && (i.isWord "TRUE" || i.isWord "FALSE")) then return i.token
    else fail
  | .word _ (some q) => if q == '"' then return i.token else fail
  | .number _ | .string _ | .literal | .placeholder => return i.token
  | .escaped => if d = .generic then return i.token else fail
  | .operator [c] =>
    if c == ':' || c == '@' then
      match (← next).token with
      | .word _ _ | .number _ => return i.token
      | _ => fail
    else fail
  | _ => fail

def numberValue (d : Dialect) : Parser Unit := do
  match ← value d with
  | .number _ | .placeholder | .operator _ => pure ()
  | _ => fail

def sortDirection : Parser Unit := do
  unless ← word "ASC" do discard (word "DESC")
  unless ← words ["NULLS", "FIRST"] do discard (words ["NULLS", "LAST"])

def sortKey (r : Rules) : Parser Expr := do
  let e ← r.expr
  sortDirection
  return e

def sortKeys (r : Rules) : Parser (List Expr) :=
  optional (words ["ORDER", "BY"]) (commaSeparated (sortKey r))

/-- An alias; words in `clauses` are one only after `AS`. -/
def optionalAlias (clauses : List String) : Parser (Option Ident) := do
  if ← word "AS" then return some (← identifier)
  match ← peek with
  | some i =>
    match i.ident? with
    | some ident =>
      if clauses.any i.isWord then return none
      else
        discard next
        return some ident
    | none => return none
  | none => return none

end SqlAtlas.Grammar
