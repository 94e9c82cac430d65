import SqlAtlas.Grammar.Change

/-!
# Queries

A query is a list of named queries, a body and the clauses after it. `INTERSECT` binds tighter than
the other ways to combine two bodies.
-/

namespace SqlAtlas.Grammar

set_option autoImplicit false

open SqlAtlas.Grammar.Parser

def cte (r : Rules) : Parser Cte := do
  let name ← identifier
  unless ← word "AS" do
    aliasColumns r
    expectWord "AS"
  let query ← parenthesized r.query
  if ← word "FROM" then discard identifier
  return .mk name query

/-- `TABLE` after its first word: up to three tokens, of which the first is a word. -/
def tableTail : Parser Body := do
  match ← get with
  | i :: p :: t :: rest =>
    let isWord (i : Item) : Bool := i.token.identifier?.isSome
    if isWord i && (p.token != .period || isWord t) then
      set rest
      return .rows []
    else fail
  | i :: rest =>
    if i.token.identifier?.isSome && !(rest.head?.any (·.token == .period)) then
      set ([] : List Item)
      return .rows []
    else fail
  | [] => fail

def plainBody (r : Rules) : Parser Body := do
  if ← peekWord "SELECT" then selectBody r
  else if ← token .openParen then
    let query ← r.query
    expect .closeParen
    return .query query
  else if ← word "VALUES" then return .rows (← valueRows r)
  else if ← word "TABLE" then tableTail
  else fail

/-- Takes the words that combine two bodies, if they bind tighter than `least`; answers how tight
they bind. -/
def setOperator (least : Nat) : Parser (Option Nat) := do
  let intersects ← peekWord "INTERSECT"
  let unites ← peekAny ["UNION", "EXCEPT"]
  let power := if intersects then 20 else if unites then 10 else 0
  if least < power then
    discard next
    discard <| anyWords
      [["DISTINCT", "BY", "NAME"], ["BY", "NAME"], ["ALL", "BY", "NAME"], ["ALL"], ["DISTINCT"]]
    return some power
  else return none

/-- A body whose combinations bind tighter than `least`; `fuel` bounds how often the power rises. -/
def bodyUpTo (r : Rules) : Nat → Nat → Parser Body
  | 0, _ => fail
  | fuel + 1, least => do
    let first ← plainBody r
    let more ← many do
      match ← setOperator least with
      | some power => return some (← bodyUpTo r fuel power)
      | none => return none
    return more.foldl .combine first

def body (r : Rules) : Parser Body := bodyUpTo r 3 0

def rowLimit (r : Rules) : Parser (List Expr) :=
  optional (word "LIMIT") (optional (return !(← word "ALL")) (return [← r.expr]))

def rowOffset (r : Rules) : Parser (List Expr) :=
  optional (word "OFFSET") do
    let e ← r.expr
    discard (anyWord ["ROW", "ROWS"])
    return [e]

/-- The rows wanted, in either order and each at most once. -/
def rowWindow (r : Rules) : Parser (List Expr) := do
  let limited ← peekWord "LIMIT"
  let first ← rowLimit r
  let skipped ← rowOffset r
  let pair ← show Parser (List Expr) from do
    if r.dialect = .generic && limited && skipped.isEmpty then
      optional (token .comma) (return [← r.expr])
    else return []
  let second ← if limited then pure [] else rowLimit r
  let last ← if skipped.isEmpty && pair.isEmpty then rowOffset r else pure []
  return first ++ skipped ++ pair ++ second ++ last

def fetchRows (d : Dialect) : Parser Unit := do
  discard (expectAny ["FIRST", "NEXT"])
  if (← anyWord ["ROW", "ROWS"]).isNone then
    discard (value d)
    discard (word "PERCENT")
    discard (expectAny ["ROW", "ROWS"])
  unless ← word "ONLY" do expectWords ["WITH", "TIES"]

def elementName (d : Dialect) : Parser Unit := do
  if ← peekToken .openParen then parenthesized (literalString d)

def documentOptions (d : Dialect) : Parser Unit := do
  discard <| many do
    if ← token .comma then
      if ← word "ROOT" then parenthesized (literalString d)
      else if ← word "BINARY" then expectWord "BASE64"
      else discard (anyWord ["ELEMENTS", "TYPE", "INCLUDE_NULL_VALUES", "WITHOUT_ARRAY_WRAPPER"])
      return some ()
    else return none

/-- What a query's rows are read for, after `FOR`; answers whether more such clauses may follow. -/
def purpose (d : Dialect) : Parser Bool := do
  if ← word "XML" then
    match ← expectAny ["RAW", "PATH", "AUTO", "EXPLICIT"] with
    | "RAW" | "PATH" => elementName d
    | _ => pure ()
    documentOptions d
    return false
  else if ← word "JSON" then
    discard (expectAny ["AUTO", "PATH"])
    documentOptions d
    return false
  else if ← word "BROWSE" then return false
  else
    discard (expectAny ["UPDATE", "SHARE"])
    if ← word "OF" then discard objectName
    unless ← word "NOWAIT" do discard (words ["SKIP", "LOCKED"])
    return true

def purposesUpTo (d : Dialect) : Nat → Parser Unit
  | 0 => fail
  | fuel + 1 => do
    if ← word "FOR" then
      if ← purpose d then purposesUpTo d fuel

def queryRule (r : Rules) : Parser Query := do
  let ctes ← show Parser (List Cte) from do
    if ← word "WITH" then
      discard (word "RECURSIVE")
      commaSeparated (cte r)
    else return []
  if ← word "INSERT" then return .mk ctes (.change (← insertTail r)) []
  else if ← word "UPDATE" then return .mk ctes (.change (← updateTail r)) []
  else
    let main ← body r
    let keys ← sortKeys r
    let rows ← rowWindow r
    if ← word "FETCH" then fetchRows r.dialect
    purposesUpTo r.dialect ((← get).length + 1)
    return .mk ctes main (keys ++ rows)

end SqlAtlas.Grammar
