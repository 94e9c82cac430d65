import SqlAtlas.Grammar.Query

/-!
# Statements that declare, set or run something

They are read only to find where they end: none of them names a column this library follows. Each
rule stands after the statement's first word.
-/

namespace SqlAtlas.Grammar

set_option autoImplicit false

open SqlAtlas.Grammar.Parser

/-! ## Tables and views -/

def option (r : Rules) : Parser Unit := do
  if r.dialect ≠ .ansi && (← peekWord "HEAP") then discard next
  else
    discard identifier
    expect (operator "=")
    discard r.expr

def options (r : Rules) (k : String) : Parser Unit := do
  if ← word k then
    expect .openParen
    unless ← peekToken .closeParen do discard (commaSeparated (option r))
    expect .closeParen

def keyColumns : Parser Unit := do
  discard (maybe identifier)
  if ← word "USING" then discard (expectAny ["BTREE", "HASH"])
  discard columnList
  constraintTiming

def tableConstraint (r : Rules) : Parser (Option Unit) := do
  let named ← word "CONSTRAINT"
  if named then discard identifier
  match ← anyWord ["UNIQUE", "PRIMARY", "FOREIGN", "CHECK"] with
  | some "UNIQUE" =>
    match ← anyWord ["KEY", "INDEX"] with
    | some _ => unless r.dialect = .generic do fail
    | none => pure ()
    keyColumns
    return some ()
  | some "PRIMARY" =>
    expectWord "KEY"
    keyColumns
    return some ()
  | some "FOREIGN" =>
    expectWord "KEY"
    discard columnList
    expectWord "REFERENCES"
    foreignKeyTarget
    return some ()
  | some _ =>
    discard (parenthesized r.expr)
    return some ()
  | none => if named then fail else return none

def tableRow (r : Rules) : Parser Unit := do
  match ← tableConstraint r with
  | some _ => pure ()
  | none =>
    match ← peek with
    | some ⟨.word _ _, _⟩ => column r
    | _ => fail

def tableBody (r : Rules) : Parser Unit := do
  if ← token .openParen then
    unless ← token .closeParen do
      discard (commaSeparated (tableRow r))
      expect .closeParen

def createTable (r : Rules) : Parser Unit := do
  discard (words ["IF", "NOT", "EXISTS"])
  discard objectName
  match ← anyWord ["LIKE", "ILIKE", "CLONE"] with
  | some _ => discard objectName
  | none => pure ()
  tableBody r
  discard (words ["WITHOUT", "ROWID"])
  options r "WITH"
  if ← words ["DEFAULT", "CHARSET"] then
    discard (token (operator "="))
    discard identifier
  if ← word "COLLATE" then
    discard (token (operator "="))
    discard objectName
  if ← words ["ON", "COMMIT"] then
    unless ← anyWords [["DELETE", "ROWS"], ["PRESERVE", "ROWS"], ["DROP"]] do fail
  discard (word "STRICT")
  if ← word "AS" then discard r.query

def createView (r : Rules) : Parser Unit := do
  if r.dialect = .generic then discard (words ["IF", "NOT", "EXISTS"])
  discard objectName
  if ← token .openParen then
    unless ← token .closeParen do
      discard (commaSeparated identifier)
      expect .closeParen
  options r "WITH"
  if ← word "CLUSTER" then
    expectWord "BY"
    discard columnList
  expectWord "AS"
  discard r.query

def createIndex (r : Rules) : Parser Unit := do
  discard (word "CONCURRENTLY")
  let guarded ← words ["IF", "NOT", "EXISTS"]
  let bare ← if guarded then pure false else word "ON"
  unless bare do
    discard objectName
    expectWord "ON"
  discard objectName
  if ← word "USING" then discard identifier
  discard (parenthesized (commaSeparated (sortKey r)))
  if ← word "INCLUDE" then discard columnList
  if ← word "NULLS" then
    discard (word "NOT")
    expectWord "DISTINCT"
  if r.dialect = .generic then
    if ← word "WITH" then discard (parenthesized r.exprs)
  discard (r.exprAfter "WHERE")

def createSchema : Parser Unit := do
  discard (words ["IF", "NOT", "EXISTS"])
  unless ← word "AUTHORIZATION" do
    discard objectName
    unless ← word "AUTHORIZATION" do return
  discard identifier

def createSequence (r : Rules) : Parser Unit := do
  discard (words ["IF", "NOT", "EXISTS"])
  discard objectName
  if ← word "AS" then discard (dataType r)
  if ← word "INCREMENT" then
    discard (word "BY")
    discard r.expr
  if ← word "MINVALUE" then discard r.expr else discard (words ["NO", "MINVALUE"])
  if ← word "MAXVALUE" then discard r.expr else discard (words ["NO", "MAXVALUE"])
  if ← word "START" then
    discard (word "WITH")
    discard r.expr
  if ← word "CACHE" then discard r.expr
  unless ← words ["NO", "CYCLE"] do discard (word "CYCLE")

def createType (r : Rules) : Parser Unit := do
  discard objectName
  expectWord "AS"
  if ← word "ENUM" then
    discard <| parenthesized do
      unless ← peekToken .closeParen do discard (commaSeparated identifier)
  else if ← token .openParen then
    unless ← token .closeParen do
      discard <| commaSeparated do
        discard identifier
        discard (dataType r)
        if ← word "COLLATE" then discard objectName
      expect .closeParen

/-! ## Routines -/

/-- The statements of a block, up to its end. After a statement only a semicolon or the word `END`
may follow; the word stays where it is. -/
def statementsUpTo (r : Rules) : Nat → Bool → Parser (List Statement)
  | 0, _ => fail
  | fuel + 1, complete => do
    if ← token .semicolon then statementsUpTo r fuel false
    else
      let items ← get
      if items.isEmpty then return []
      else if complete then
        if ← peekWord "END" then return [] else fail
      else
        let s ← r.statement
        return s :: (← statementsUpTo r fuel true)

def statements (r : Rules) : Parser (List Statement) := do
  statementsUpTo r ((← get).length * 2 + 2) false

/-- The parameters of a procedure; a comma may follow the last one. -/
def parametersUpTo (r : Rules) : Nat → Parser Unit
  | 0 => fail
  | fuel + 1 => do
    match ← peek with
    | some ⟨.word _ _, _⟩ =>
      discard identifier
      discard (dataType r)
    | _ => pure ()
    let more ← token .comma
    unless ← token .closeParen do
      if more then parametersUpTo r fuel else fail

def createProcedure (r : Rules) : Parser Unit := do
  discard objectName
  if ← token .openParen then
    unless ← token .closeParen do parametersUpTo r ((← get).length + 1)
  expectWords ["AS", "BEGIN"]
  discard (statements r)
  expectWord "END"

def createTail (r : Rules) : Parser Unit := do
  let replaces ← words ["OR", "REPLACE"]
  discard (words ["OR", "ALTER"])
  discard (word "LOCAL")
  discard (word "GLOBAL")
  discard (word "TRANSIENT")
  discard (anyWord ["TEMP", "TEMPORARY"])
  if ← word "TABLE" then createTable r
  else if ← anyWords [["MATERIALIZED", "VIEW"], ["VIEW"]] then createView r
  else if replaces then fail
  else if ← anyWords [["INDEX"], ["UNIQUE", "INDEX"]] then createIndex r
  else if ← word "SCHEMA" then createSchema
  else if ← word "DATABASE" then
    discard (words ["IF", "NOT", "EXISTS"])
    discard objectName
  else if ← word "SEQUENCE" then createSequence r
  else if ← word "TYPE" then createType r
  else if ← word "PROCEDURE" then createProcedure r
  else fail

/-! ## Removal and alteration -/

def routineName (r : Rules) : Parser Unit := do
  discard objectName
  if ← token .openParen then
    unless ← token .closeParen do
      discard (commaSeparated (dataType r))
      expect .closeParen

def dropTail (r : Rules) : Parser Unit := do
  if r.dialect = .generic then discard (word "TEMPORARY")
  if ← anyWords [["FUNCTION"], ["PROCEDURE"]] then
    discard (words ["IF", "EXISTS"])
    discard (commaSeparated (routineName r))
    discard (anyWord ["CASCADE", "RESTRICT"])
  else
    let role ← peekWord "ROLE"
    unless ← anyWords [["TABLE"], ["VIEW"], ["MATERIALIZED", "VIEW"], ["INDEX"], ["ROLE"],
        ["SCHEMA"], ["DATABASE"], ["SEQUENCE"], ["STAGE"], ["TYPE"]] do fail
    discard (words ["IF", "EXISTS"])
    discard (commaSeparated objectName)
    let cascade ← word "CASCADE"
    let restrict ← word "RESTRICT"
    let purge ← word "PURGE"
    if cascade && restrict then fail
    if role && (cascade || restrict || purge) then fail

def truncateTail (r : Rules) : Parser Unit := do
  discard (word "TABLE")
  discard (word "ONLY")
  discard (commaSeparated objectName)
  if ← word "PARTITION" then discard (parenthesized r.exprs)
  if r.dialect = .generic then
    discard (anyWords [["RESTART", "IDENTITY"], ["CONTINUE", "IDENTITY"]])
    discard (anyWord ["CASCADE", "RESTRICT"])
  if ← words ["ON", "CLUSTER"] then discard identifier

def alteration (r : Rules) : Parser Unit := do
  if ← word "ADD" then
    match ← tableConstraint r with
    | some _ => pure ()
    | none =>
      discard (word "COLUMN")
      discard (words ["IF", "NOT", "EXISTS"])
      column r
  else if ← word "DROP" then
    discard (anyWord ["CONSTRAINT", "COLUMN"])
    discard (words ["IF", "EXISTS"])
    discard identifier
    discard (anyWord ["CASCADE", "RESTRICT"])
  else if ← word "ALTER" then
    discard (word "COLUMN")
    discard identifier
    if ← anyWords [["SET", "NOT", "NULL"], ["DROP", "NOT", "NULL"], ["DROP", "DEFAULT"]] then
      pure ()
    else if ← words ["SET", "DEFAULT"] then discard r.expr
    else if ← anyWords [["SET", "DATA", "TYPE"], ["TYPE"]] then discard (dataType r)
    else fail
  else if ← word "RENAME" then
    unless ← word "TO" do
      discard (word "COLUMN")
      discard identifier
      expectWord "TO"
    discard objectName
  else fail

def alterTail (r : Rules) : Parser Unit := do
  if ← word "VIEW" then createView r
  else if ← word "TABLE" then
    discard (words ["IF", "EXISTS"])
    discard (word "ONLY")
    discard objectName
    discard (commaSeparated (alteration r))
  else if ← word "INDEX" then
    discard objectName
    expectWords ["RENAME", "TO"]
    discard objectName
  else fail

/-! ## Variables, sessions and transactions -/

def declaredVariable (r : Rules) : Parser Unit := do
  let name ← identifier
  let cursor ← peekWord "CURSOR"
  unless cursor || name.value.head? == some '@' do fail
  if cursor then expectWord "CURSOR"
  else
    discard (word "AS")
    discard (dataType r)
  if ← word "FOR" then discard r.query
  else if ← token (operator "=") then discard r.expr

def declareTail (r : Rules) : Parser Unit := do
  if r.dialect = .tsql then discard (commaSeparated (declaredVariable r))
  else
    discard identifier
    discard (word "BINARY")
    discard (anyWord ["INSENSITIVE", "ASENSITIVE"])
    discard (anyWords [["SCROLL"], ["NO", "SCROLL"]])
    expectWord "CURSOR"
    discard (anyWords [["WITH", "HOLD"], ["WITHOUT", "HOLD"]])
    expectWord "FOR"
    discard r.query

/-- The modes of a transaction, at most `fuel` of them. After a comma one must follow. -/
def transactionModesUpTo : Nat → Bool → Parser Unit
  | 0, _ => fail
  | fuel + 1, required => do
    if ← words ["ISOLATION", "LEVEL"] then
      unless ← anyWords [["READ", "UNCOMMITTED"], ["READ", "COMMITTED"], ["REPEATABLE", "READ"],
          ["SERIALIZABLE"], ["SNAPSHOT"]] do fail
      let more ← token .comma
      transactionModesUpTo fuel more
    else if ← anyWords [["READ", "ONLY"], ["READ", "WRITE"]] then
      let more ← token .comma
      transactionModesUpTo fuel more
    else if required then fail

def transactionModes : Parser Unit := do
  transactionModesUpTo ((← get).length + 1) false

def switch : Parser Unit := discard (expectAny ["ON", "OFF"])

def anyName : Parser Unit := do
  match (← next).token with
  | .word _ _ => pure ()
  | _ => fail

/-- A setting of the session, which has no sign between its name and its value. -/
def sessionSetting (r : Rules) : Parser Unit := do
  if ← word "STATISTICS" then
    discard (expectAny ["IO", "PROFILE", "TIME", "XML"])
    switch
  else if ← word "IDENTITY_INSERT" then
    discard objectName
    switch
  else if ← word "OFFSETS" then
    discard (commaSeparated anyName)
    switch
  else
    discard (commaSeparated anyName)
    discard r.expr

def setValues (r : Rules) : Parser Unit := do
  discard <| commaSeparated do
    if ← peekQuery then discard r.query else discard r.expr

def roleSetting : Parser Unit := do
  expectWord "ROLE"
  unless ← word "NONE" do discard identifier

def setTail (r : Rules) : Parser Unit := do
  let reach ← anyWord ["SESSION", "LOCAL", "HIVEVAR"]
  if reach == some "HIVEVAR" then expect (operator ":")
  else if (← maybe roleSetting).isSome then return
  let start ← get
  let zone ← words ["TIME", "ZONE"]
  let name ← if zone then pure [⟨"TIMEZONE".toList, none⟩] else objectName
  let assigns ← show Parser Bool from do
    if ← token (operator "=") then return true else word "TO"
  if assigns then setValues r
  else
    let only : Option String := match name with
      | [⟨value, none⟩] => some (String.ofList value)
      | _ => none
    if only.any fun n => Text.asciiUpper n.toList == "TIMEZONE".toList then discard r.expr
    else if only == some "CHARACTERISTICS" then
      expectWords ["AS", "TRANSACTION"]
      transactionModes
    else if only == some "TRANSACTION" && reach.isNone then
      if ← word "SNAPSHOT" then discard (value r.dialect) else transactionModes
    else if r.dialect = .tsql then
      set (start.drop (2 * name.length - 2))
      sessionSetting r
    else fail

def chainTail : Parser Unit := do
  discard (anyWord ["TRANSACTION", "WORK"])
  if ← word "AND" then
    discard (word "NO")
    expectWord "CHAIN"

def rollbackTail : Parser Unit := do
  chainTail
  if ← word "TO" then
    discard (word "SAVEPOINT")
    discard identifier

def beginTail (d : Dialect) : Parser Unit := do
  if d ≠ .ansi then discard (anyWord ["DEFERRED", "IMMEDIATE", "EXCLUSIVE", "TRY", "CATCH"])
  discard (anyWord ["TRANSACTION", "WORK"])
  transactionModes

def endTail (d : Dialect) : Parser Unit := do
  if d = .tsql then discard (anyWord ["TRY", "CATCH"])
  chainTail

/-! ## Running things -/

def aliasedExpr (r : Rules) : Parser Unit := do
  discard r.expr
  if ← word "AS" then discard identifier

def executeTail (r : Rules) : Parser Unit := do
  discard objectName
  if ← token .openParen then
    unless ← peekToken .closeParen do discard r.exprs
    expect .closeParen
  else
    match ← peek with
    | none | some ⟨.semicolon, _⟩ => pure ()
    | some i => unless i.isWord "USING" do discard r.exprs
  if ← word "USING" then discard (commaSeparated (aliasedExpr r))

def callStatement (r : Rules) : Parser Unit := do
  discard objectName
  if ← peekToken .openParen then discard (callTail r (operand r))

def fetchTail (r : Rules) : Parser Unit := do
  match ← anyWord
      ["NEXT", "PRIOR", "FIRST", "LAST", "ALL", "ABSOLUTE", "RELATIVE", "FORWARD", "BACKWARD"] with
  | some "ABSOLUTE" | some "RELATIVE" => numberValue r.dialect
  | some "FORWARD" | some "BACKWARD" => unless ← word "ALL" do numberValue r.dialect
  | some _ => pure ()
  | none => numberValue r.dialect
  discard (expectAny ["FROM", "IN"])
  discard identifier
  if ← word "INTO" then discard objectName

def raiseTail (r : Rules) : Parser Unit := do
  expect .openParen
  discard r.expr
  expect .comma
  discard r.expr
  expect .comma
  discard r.exprs
  expect .closeParen
  if ← word "WITH" then
    discard (commaSeparated (expectAny ["LOG", "NOWAIT", "SETERROR"]))

def privileges : Parser Unit := do
  if ← word "ALL" then discard (word "PRIVILEGES")
  else
    discard <| commaSeparated do
      discard <| expectAny ["CONNECT", "CREATE", "DELETE", "EXECUTE", "INSERT", "REFERENCES",
        "SELECT", "TEMPORARY", "TRIGGER", "TRUNCATE", "UPDATE", "USAGE"]
      discard optionalColumnList

/-- The objects and the grantees of a privilege, with `direction` between them. -/
def privilegeTail (direction : String) : Parser Unit := do
  privileges
  expectWord "ON"
  unless ← words ["ALL", "TABLES", "IN", "SCHEMA"] do
    unless ← words ["ALL", "SEQUENCES", "IN", "SCHEMA"] do
      discard (anyWord ["SCHEMA", "TABLE", "SEQUENCE", "DATABASE", "VIEW"])
  discard (commaSeparated objectName)
  expectWord direction
  discard (commaSeparated identifier)

end SqlAtlas.Grammar
