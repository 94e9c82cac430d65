import SqlAtlas.Grammar.Source

/-!
# `SELECT`

The clauses of a `SELECT`, in the order in which they must stand.
-/

namespace SqlAtlas.Grammar

set_option autoImplicit false

open SqlAtlas.Grammar.Parser

def newName : Parser Unit := do
  discard identifier
  discard (word "AS")
  discard identifier

def replacement (r : Rules) : Parser Expr := do
  let e ← r.expr
  discard (word "AS")
  discard identifier
  return e

/-- Which columns a star leaves out, replaces or renames; the answer is the expressions that replace
columns. -/
def starOptions (r : Rules) : Parser (List Expr) := do
  let names : Parser Unit := do
    if ← peekToken .openParen then discard columnList else discard identifier
  if ← word "ILIKE" then
    unless (← next).token matches .string _ do fail
  else if ← word "EXCLUDE" then names
  if ← word "EXCEPT" then names
  let replaced ← optional (word "REPLACE") (parenthesized (commaSeparated (replacement r)))
  if ← word "RENAME" then
    if ← peekToken .openParen then discard (parenthesized (commaSeparated newName))
    else newName
  return replaced

/-- An item of a projection: its expression, if it has one. In some dialects a name before an
equals sign is the item's alias. -/
def selectItem (r : Rules) : Parser (List Expr) := do
  match ← expressionOrStar r with
  | none => if r.dialect = .generic then starOptions r else return []
  | some e =>
    match e with
    | .column [⟨value, none⟩] =>
      if Text.lower value == "from".toList then fail
    | _ => pure ()
    match r.dialect, e with
    | .tsql, .equation (.column [_]) right => return [right]
    | _, _ =>
      discard (optionalAlias columnClauseWords)
      return [e]

def selectItems (r : Rules) : Parser (List Expr) :=
  return (← commaSeparated (selectItem r)).flatten

def distinctness (r : Rules) : Parser (List Expr) := do
  let all ← word "ALL"
  if ← word "DISTINCT" then
    if all then fail
    if ← word "ON" then
      expect .openParen
      let keys ← if ← peekToken .closeParen then pure [] else r.exprs
      expect .closeParen
      return keys
  return []

def topRows (r : Rules) : Parser (List Expr) := do
  if ← word "TOP" then
    let amount ← show Parser (List Expr) from do
      if ← token .openParen then
        let e ← r.expr
        expect .closeParen
        return [e]
      else
        discard wholeNumber
        return []
    discard (word "PERCENT")
    discard (words ["WITH", "TIES"])
    return amount
  else return []

def intoTable : Parser Unit := do
  if ← word "INTO" then
    discard (anyWord ["TEMP", "TEMPORARY"])
    discard (word "UNLOGGED")
    discard (word "TABLE")
    discard objectName

def tuple (r : Rules) : Parser (List Expr) := do
  if ← token .openParen then
    if ← token .closeParen then return []
    let es ← r.exprs
    expect .closeParen
    return es
  else return [← r.expr]

def groupKey (r : Rules) : Parser Expr := do
  if r.dialect = .generic then
    if ← anyWords [["GROUPING", "SETS"], ["CUBE"], ["ROLLUP"]] then
      return .compound (← parenthesized (commaSeparated (tuple r))).flatten
    if (← token .openParen) then
      if ← token .closeParen then return .compound []
      modify (⟨.openParen, none⟩ :: ·)
  r.expr

def groupKeys (r : Rules) : Parser (List Expr) := do
  if ← words ["GROUP", "BY"] then
    let keys ← if ← word "ALL" then pure [] else commaSeparated (groupKey r)
    if r.dialect = .generic then
      discard <| many do
        if ← word "WITH" then return some (← expectAny ["ROLLUP", "CUBE", "TOTALS"])
        else return none
    return keys
  else return []

def lateralView (r : Rules) : Parser (Option Expr) := do
  if ← words ["LATERAL", "VIEW"] then
    discard (word "OUTER")
    let e ← r.expr
    discard objectName
    discard (commaSeparated (optionalAlias ["WHERE", "GROUP", "CLUSTER", "HAVING", "LATERAL"]))
    return some e
  else return none

def namedWindow (r : Rules) : Parser (List Expr) := do
  discard identifier
  expectWord "AS"
  if ← token .openParen then windowBody r (operand r)
  else if r.dialect = .generic then
    discard identifier
    return []
  else fail

/-- Named windows and the condition on them, in either order. -/
def windows (r : Rules) : Parser (List Expr) := do
  let names : Parser (List Expr) :=
    optional (word "WINDOW") (return (← commaSeparated (namedWindow r)).flatten)
  let first ← names
  let condition ← r.exprAfter "QUALIFY"
  let last ← if first.isEmpty then names else pure []
  return first ++ condition ++ last

def selectBody (r : Rules) : Parser Body := do
  expectWord "SELECT"
  let keys ← distinctness r
  let top ← topRows r
  let items ← show Parser (List Expr) from do
    if r.dialect = .generic && (← peekWord "FROM") then return [] else selectItems r
  intoTable
  let sources ← optional (word "FROM") (joinedList r)
  let views ← many (lateralView r)
  let before ← if r.dialect = .generic then r.exprAfter "PREWHERE" else pure []
  let condition ← r.exprAfter "WHERE"
  let groups ← groupKeys r
  let clusters ← optional (words ["CLUSTER", "BY"]) r.exprs
  let spread ← optional (words ["DISTRIBUTE", "BY"]) r.exprs
  let sorted ← optional (words ["SORT", "BY"]) r.exprs
  let having ← r.exprAfter "HAVING"
  let named ← windows r
  return .select sources (items ++ condition ++ groups ++ having)
    (keys ++ top ++ views ++ before ++ clusters ++ spread ++ sorted ++ named)

end SqlAtlas.Grammar
