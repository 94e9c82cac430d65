import SqlAtlas.Grammar.Expression

/-!
# Tables of a `FROM` list

A table factor is a named table, a query or joined tables in parentheses, or a table made from
another one. A parenthesis opens a query if one can be read there, and joined tables otherwise.
-/

namespace SqlAtlas.Grammar

set_option autoImplicit false

open SqlAtlas.Grammar.Parser

def tableArguments (r : Rules) : Parser (List Expr) := do
  if ← token .closeParen then return []
  let operands := (← commaSeparated (argument r)).flatten
  expect .closeParen
  return operands

def tableVersion (r : Rules) : Parser (List Expr) := do
  if r.dialect = .tsql then
    optional (words ["FOR", "SYSTEM_TIME", "AS", "OF"]) (return [← r.expr])
  else return []

def tableHints (r : Rules) : Parser (List Expr) := do
  match ← get with
  | k :: p :: _ =>
    if k.isWord "WITH" && p.token == .openParen then
      expectWord "WITH"
      parenthesized r.exprs
    else return []
  | _ => return []

def tableSample (r : Rules) : Parser (List Expr) := do
  match ← anyWord ["TABLESAMPLE", "SAMPLE"] with
  | none => return []
  | some _ =>
    discard (anyWord ["BERNOULLI", "ROW", "SYSTEM", "BLOCK"])
    let closed ← token .openParen
    let amount ← show Parser (List Expr) from do
      if closed then
        if ← word "BUCKET" then
          numberValue r.dialect
          expectWords ["OUT", "OF"]
          numberValue r.dialect
          return ← r.exprAfter "ON"
      match ← maybe r.expr with
      | some e =>
        discard (anyWord ["ROWS", "PERCENT"])
        return [e]
      | none =>
        match (← next).token with
        | .word _ _ =>
          discard (anyWord ["ROWS", "PERCENT"])
          return []
        | _ => fail
    if closed then expect .closeParen
    match ← anyWord ["REPEATABLE", "SEED"] with
    | some _ => parenthesized (numberValue r.dialect)
    | none => pure ()
    let offset ← r.exprAfter "OFFSET"
    return amount ++ offset

def pivotAggregate (r : Rules) : Parser Expr := do
  match (← next).token with
  | .word _ _ =>
    let e ← callTail r (operand r)
    if ← word "AS" then discard identifier
    return e
  | _ => fail

def pivotValues (r : Rules) : Parser (List Expr) := do
  if ← word "ANY" then sortKeys r
  else if ← peekQuery then return [.subquery (← r.query)]
  else commaSeparated do
    let e ← r.expr
    if ← word "AS" then discard identifier
    return e

def pivotTail (r : Rules) (inner : Factor) : Parser Factor := do
  expect .openParen
  let aggregates ← commaSeparated (pivotAggregate r)
  expectWord "FOR"
  discard objectName
  expectWord "IN"
  let values ← parenthesized (pivotValues r)
  let default ← optional (words ["DEFAULT", "ON", "NULL"]) (return [← parenthesized r.expr])
  expect .closeParen
  discard (tableAlias r)
  return .made [inner] (aggregates ++ values ++ default)

def unpivotTail (r : Rules) (inner : Factor) : Parser Factor := do
  expect .openParen
  discard identifier
  expectWord "FOR"
  discard identifier
  expectWord "IN"
  discard columnList
  expect .closeParen
  discard (tableAlias r)
  return .made [inner] []

def pivotsUpTo (r : Rules) : Nat → Factor → Parser Factor
  | 0, _ => fail
  | fuel + 1, inner => do
    if ← word "PIVOT" then
      let outer ← pivotTail r inner
      pivotsUpTo r fuel outer
    else if ← word "UNPIVOT" then
      let outer ← unpivotTail r inner
      pivotsUpTo r fuel outer
    else return inner

def pivots (r : Rules) (inner : Factor) : Parser Factor := do
  pivotsUpTo r ((← get).length + 1) inner

def derivedTail (r : Rules) : Parser Factor := do
  let query ← r.query
  expect .closeParen
  return .derived query (← tableAlias r)

def documentColumn (r : Rules) : Parser Unit := do
  discard identifier
  discard (dataType r)
  match ← peek with
  | some ⟨.string _, _⟩ => discard next
  | _ => pure ()
  if ← word "AS" then expectWord "JSON"

def documentTail (r : Rules) : Parser Factor := do
  let document ← r.expr
  if ← token .comma then discard (value r.dialect)
  expect .closeParen
  if ← word "WITH" then
    discard (parenthesized (commaSeparated (documentColumn r)))
  discard (tableAlias r)
  return .made [] [document]

def namedFactor (r : Rules) : Parser Factor := do
  let name ← objectName
  let version ← tableVersion r
  let called ← token .openParen
  let operands ← if called then tableArguments r else pure []
  discard (words ["WITH", "ORDINALITY"])
  let label ← tableAlias r
  let hints ← tableHints r
  let sample ← tableSample r
  pivots r (.table name label called (operands ++ hints ++ version ++ sample))

def joinCondition (r : Rules) : Parser (List Expr) := do
  if ← word "ON" then return [← r.expr]
  if ← word "USING" then discard columnList
  return []

/-- The words before a joined table; `false` if none come next. -/
def joinWords : Parser Bool := do
  match ← anyWord ["INNER", "JOIN", "LEFT", "RIGHT", "ANTI", "SEMI", "FULL", "OUTER"] with
  | none => return false
  | some "JOIN" => return true
  | some "INNER" | some "ANTI" | some "SEMI" =>
    expectWord "JOIN"
    return true
  | some "FULL" =>
    discard (word "OUTER")
    expectWord "JOIN"
    return true
  | some "OUTER" => fail
  | some _ =>
    discard (anyWord ["OUTER", "SEMI", "ANTI"])
    expectWord "JOIN"
    return true

def joinStep (r : Rules) (factor : Parser Factor) : Parser (Option Join) := do
  discard (word "GLOBAL")
  if ← word "CROSS" then
    discard (expectAny ["JOIN", "APPLY"])
    return some (.mk (← factor) [])
  else if ← word "OUTER" then
    expectWord "APPLY"
    return some (.mk (← factor) [])
  else if ← word "ASOF" then
    expectWord "JOIN"
    let table ← factor
    expectWord "MATCH_CONDITION"
    let nearest ← parenthesized r.expr
    return some (.mk table (nearest :: (← joinCondition r)))
  else
    let natural ← word "NATURAL"
    if ← joinWords then
      let table ← factor
      return some (.mk table (← if natural then pure [] else joinCondition r))
    else if natural then fail
    else return none

def joinedWith (r : Rules) (factor : Parser Factor) : Parser Joined := do
  let first ← factor
  return .mk first (← many (joinStep r factor))

/-- Gives a table in parentheses the alias after them; a second alias is refused. -/
def renamed (label : Option Ident) (factor : Factor) : Parser Factor :=
  match label, factor with
  | none, f => return f
  | some _, .table _ (some _) _ _ | some _, .derived _ (some _) => fail
  | some a, .table name none called operands => return .table name (some a) called operands
  | some a, .derived query none => return .derived query (some a)
  | some _, f => return f

def groupTail (r : Rules) (factor : Parser Factor) : Parser Factor := do
  let tables ← joinedWith r factor
  let .mk first joins := tables
  let grouped := match first with
    | .group _ => true
    | _ => false
  if !joins.isEmpty || grouped then
    expect .closeParen
    discard (tableAlias r)
    return .group tables
  else if r.dialect = .generic then
    expect .closeParen
    renamed (← tableAlias r) first
  else fail

def valueRows (r : Rules) : Parser (List Expr) := do
  let rows ← commaSeparated do
    discard (word "ROW")
    parenthesized r.exprs
  return rows.flatten

/-- A table factor with at most `fuel` parentheses inside one another. -/
def factorUpTo (r : Rules) : Nat → Parser Factor
  | 0 => fail
  | fuel + 1 => do
    let opensCall (k : String) : Parser Bool := do
      match ← get with
      | i :: p :: _ => return i.isWord k && p.token == .openParen
      | _ => return false
    if ← word "LATERAL" then
      if ← token .openParen then derivedTail r
      else
        discard objectName
        expect .openParen
        let operands ← tableArguments r
        discard (tableAlias r)
        return .made [] operands
    else if ← word "TABLE" then
      let e ← parenthesized r.expr
      discard (tableAlias r)
      return .made [] [e]
    else if ← token .openParen then
      match ← maybe (derivedTail r) with
      | some table => pivots r table
      | none => groupTail r (factorUpTo r fuel)
    else if r.dialect = .generic && (← opensCall "VALUES") then
      expectWord "VALUES"
      let rows ← valueRows r
      return .derived (.mk [] (.rows rows) []) (← tableAlias r)
    else if r.dialect = .generic && (← peekWord "UNNEST") then
      expectWord "UNNEST"
      let operands ← parenthesized r.exprs
      discard (words ["WITH", "ORDINALITY"])
      discard (tableAlias r)
      return .made [] operands
    else if ← opensCall "OPENJSON" then
      expectWord "OPENJSON"
      expect .openParen
      documentTail r
    else namedFactor r

def factor (r : Rules) : Parser Factor := do
  factorUpTo r ((← get).length + 1)

def joined (r : Rules) : Parser Joined := joinedWith r (factor r)

def joinedList (r : Rules) : Parser (List Joined) := commaSeparated (joined r)

end SqlAtlas.Grammar
