import SqlAtlas.Grammar.Select

/-!
# Statements that change tables

`INSERT`, `UPDATE`, `DELETE` and `MERGE`, each after its first word.
-/

namespace SqlAtlas.Grammar

set_option autoImplicit false

open SqlAtlas.Grammar.Parser

def conflictWords : Parser Unit := do
  discard <| anyWords
    [["OR", "REPLACE"], ["OR", "ROLLBACK"], ["OR", "ABORT"], ["OR", "FAIL"], ["OR", "IGNORE"]]

def assignmentTargets : Parser (List (List Ident)) := do
  if ← token .openParen then
    let names ← commaSeparated objectName
    expect .closeParen
    return names
  else return [← objectName]

def assignment (r : Rules) : Parser (List (List Ident) × Expr) := do
  let targets ← assignmentTargets
  expect (operator "=")
  return (targets, ← r.expr)

def returning (r : Rules) : Parser (List Expr) := optional (word "RETURNING") (selectItems r)

def insertConflict (r : Rules) : Parser Unit := do
  if ← word "ON" then
    if ← word "CONFLICT" then
      if ← words ["ON", "CONSTRAINT"] then discard objectName
      else if ← peekToken .openParen then discard columnList
      expectWord "DO"
      unless ← word "NOTHING" do
        expectWords ["UPDATE", "SET"]
        discard (commaSeparated (assignment r))
        discard (r.exprAfter "WHERE")
    else
      expectWords ["DUPLICATE", "KEY", "UPDATE"]
      discard (commaSeparated (assignment r))

def insertPartition (r : Rules) : Parser Unit := do
  if ← word "PARTITION" then discard (parenthesized r.exprs)

def peekQueryGroup : Parser Bool := do
  match ← get with
  | p :: i :: _ => return p.token == .openParen && i.isWord "SELECT"
  | _ => return false

def insertTail (r : Rules) : Parser Statement := do
  conflictWords
  discard (word "OVERWRITE")
  discard (word "INTO")
  discard (word "LOCAL")
  discard (word "TABLE")
  let target ← objectName
  let (columns, source) ← show Parser (List Ident × Option Query) from do
    if ← words ["DEFAULT", "VALUES"] then return ([], none)
    let columns ← show Parser (List Ident) from do
      if ← peekQueryGroup then return []
      let columns ← optionalColumnList
      insertPartition r
      return columns
    return (columns, some (← r.query))
  insertConflict r
  discard (returning r)
  return .insert target columns source

/-- An update after its first word. Its sources stand before or after the assignments. -/
def updateTail (r : Rules) : Parser Statement := do
  conflictWords
  let table ← joined r
  let before ← optional (word "FROM") (return [← joined r])
  expectWord "SET"
  let pairs ← commaSeparated (assignment r)
  let sources ← show Parser (List Joined) from do
    if before.isEmpty then optional (word "FROM") (return [← joined r]) else return before
  let condition ← r.exprAfter "WHERE"
  let items ← returning r
  return .update table (pairs.map (·.2)) sources (condition ++ items) (pairs.map (·.1)).flatten

def deleteTail (r : Rules) : Parser Statement := do
  let targets ← show Parser (List (List Ident)) from do
    if ← word "FROM" then return []
    if r.dialect = .generic then return []
    let names ← commaSeparated objectName
    expectWord "FROM"
    return names
  let sources ← joinedList r
  let others ← optional (word "USING") (joinedList r)
  let condition ← r.exprAfter "WHERE"
  let items ← returning r
  let keys ← sortKeys r
  let bound ← optional (word "LIMIT") (optional (return !(← word "ALL")) (return [← r.expr]))
  return .delete targets (sources ++ others) (condition ++ items ++ keys ++ bound)

/-- One case of a merge, if one comes next. Rows that have no match can only be inserted, and the
others can only be changed. -/
def mergeCase (r : Rules) : Parser (Option Unit) := do
  match ← peek with
  | none | some ⟨.semicolon, _⟩ => return none
  | some _ =>
    expectWord "WHEN"
    let missing ← word "NOT"
    expectWord "MATCHED"
    let fromSource ← if missing then words ["BY", "SOURCE"] else pure false
    if missing && !fromSource then discard (words ["BY", "TARGET"])
    discard (r.exprAfter "AND")
    expectWord "THEN"
    let insertable := missing && !fromSource
    match ← anyWord ["UPDATE", "INSERT", "DELETE"] with
    | some "UPDATE" =>
      if insertable then fail
      expectWord "SET"
      discard (commaSeparated (assignment r))
    | some "DELETE" => if insertable then fail
    | some _ =>
      unless insertable do fail
      discard optionalColumnList
      let whole ← if r.dialect = .generic then word "ROW" else pure false
      unless whole do
        expectWord "VALUES"
        discard (valueRows r)
    | none => fail
    return some ()

def mergeTail (r : Rules) : Parser Statement := do
  discard (word "INTO")
  discard (factor r)
  expectWord "USING"
  discard (factor r)
  expectWord "ON"
  discard r.expr
  discard (many (mergeCase r))
  return .other

end SqlAtlas.Grammar
