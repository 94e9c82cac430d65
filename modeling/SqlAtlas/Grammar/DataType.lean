import SqlAtlas.Grammar.Rules

/-!
# Data types and column definitions

Types leave no trace in a statement, but they decide where an expression ends, and a built-in type
before a literal makes one constant of both.
-/

namespace SqlAtlas.Grammar

set_option autoImplicit false

open SqlAtlas.Grammar.Parser

inductive TypeKind where
  | builtIn
  | interval
  | custom
deriving DecidableEq, Repr

def plainTypes : List String :=
  ["BOOLEAN", "BOOL", "REAL", "FLOAT4", "FLOAT32", "FLOAT64", "FLOAT8", "UUID", "DATE", "DATE32",
   "JSON", "JSONB", "REGCLASS", "TEXT", "TINYTEXT", "MEDIUMTEXT", "LONGTEXT", "BYTEA",
   "TINYBLOB", "MEDIUMBLOB", "LONGBLOB", "INT16", "INT32", "INT64", "INT128", "INT256", "UINT8",
   "UINT16", "UINT32", "UINT64", "UINT128", "UINT256", "TRIGGER"]

def sizedTypes : List String :=
  ["FLOAT", "CLOB", "BINARY", "VARBINARY", "BLOB", "BYTES", "DATETIME", "STRING", "TIMESTAMPTZ",
   "TIMETZ"]

def integerTypes : List String :=
  ["TINYINT", "INT2", "SMALLINT", "MEDIUMINT", "INT", "INT4", "INT8", "INTEGER", "BIGINT"]

def exactTypes : List String := ["NUMERIC", "DECIMAL", "DEC", "BIGNUMERIC", "BIGDECIMAL"]

def textTypes : List String := ["VARCHAR", "NVARCHAR"]

def optionalSize : Parser Unit := do
  if ← token .openParen then
    discard wholeNumber
    expect .closeParen

def optionalScale : Parser Unit := do
  if ← token .openParen then
    discard wholeNumber
    if ← token .comma then discard wholeNumber
    expect .closeParen

def optionalLength : Parser Unit := do
  if ← token .openParen then
    unless ← word "MAX" do
      discard wholeNumber
      discard (anyWord ["CHARACTERS", "OCTETS"])
    expect .closeParen

def optionalZone : Parser Unit := do
  match ← anyWord ["WITH", "WITHOUT"] with
  | some _ => expectWords ["TIME", "ZONE"]
  | none => pure ()

def literalStrings : Parser Unit := do
  discard <| parenthesized <| commaSeparated do
    match (← next).token with
    | .string _ => pure ()
    | _ => fail

/-- The modifiers of a type that is not built in: anything up to the closing parenthesis that is a
word, a number, a string or a comma. -/
def modifiersUpTo : Nat → Parser Unit
  | 0 => fail
  | fuel + 1 => do
    match (← next).token with
    | .word _ _ | .number _ | .string _ | .comma => modifiersUpTo fuel
    | .closeParen => pure ()
    | _ => fail

def customType : Parser TypeKind := do
  discard objectName
  if ← token .openParen then modifiersUpTo ((← get).length + 1)
  return .custom

/-- The rows, dimensions and the like that make a type an array of it. -/
def arraySuffix (d : Dialect) : Parser Unit := do
  if d = .generic then
    discard <| many do
      if ← token (operator "[") then
        discard (maybe wholeNumber)
        expect (operator "]")
        return some ()
      else return none

def referentialAction : Parser Unit := do
  match ← anyWord ["RESTRICT", "CASCADE", "SET", "NO"] with
  | some "SET" => discard (expectAny ["NULL", "DEFAULT"])
  | some "NO" => expectWord "ACTION"
  | some _ => pure ()
  | none => fail

def referentialActions : Parser Unit := do
  discard <| many do
    if ← anyWords [["ON", "DELETE"], ["ON", "UPDATE"]] then
      referentialAction
      return some ()
    else return none

def constraintTiming : Parser Unit := do
  discard <| many do
    if ← anyWords [["NOT", "DEFERRABLE"], ["DEFERRABLE"], ["INITIALLY", "DEFERRED"],
        ["INITIALLY", "IMMEDIATE"], ["NOT", "ENFORCED"], ["ENFORCED"]] then return some ()
    else return none

def foreignKeyTarget : Parser Unit := do
  discard objectName
  discard optionalColumnList
  referentialActions
  constraintTiming

def identityRange (r : Rules) : Parser Unit := do
  if ← token .openParen then
    discard r.expr
    expect .comma
    discard r.expr
    expect .closeParen

def columnOption (r : Rules) : Parser (Option Unit) := do
  if ← words ["CHARACTER", "SET"] then
    discard objectName
  else if ← words ["NOT", "NULL"] then pure ()
  else if ← word "COMMENT" then
    match (← next).token with
    | .string _ => pure ()
    | _ => fail
  else if ← word "NULL" then pure ()
  else if ← word "DEFAULT" then discard r.expr
  else if ← anyWords [["PRIMARY", "KEY"], ["UNIQUE"]] then constraintTiming
  else if ← word "REFERENCES" then foreignKeyTarget
  else if ← word "CHECK" then discard (parenthesized r.expr)
  else if r.dialect ≠ .ansi && (← peekWord "IDENTITY") then
    expectWord "IDENTITY"
    identityRange r
  else return none
  return some ()

/-- A column definition whose type is read by `type`. -/
def columnDefinition (r : Rules) (type : Parser TypeKind) : Parser Unit := do
  discard identifier
  discard type
  if ← word "COLLATE" then discard objectName
  discard <| many do
    if ← word "CONSTRAINT" then
      discard identifier
      match ← columnOption r with
      | some _ => return some ()
      | none => fail
    else columnOption r

/-- A data type that holds at most `fuel` others. -/
def dataTypeUpTo (r : Rules) : Nat → Parser TypeKind
  | 0 => fail
  | fuel + 1 => do
    let i ← next
    let isType (ks : List String) : Bool := ks.any i.isWord
    let kind ← show Parser TypeKind from do
      if isType plainTypes then return .builtIn
      else if isType sizedTypes then
        optionalSize
        return .builtIn
      else if isType integerTypes then
        optionalSize
        discard (word "UNSIGNED")
        return .builtIn
      else if isType exactTypes then
        optionalScale
        return .builtIn
      else if isType textTypes then
        optionalLength
        return .builtIn
      else if i.isWord "DOUBLE" then
        unless ← word "PRECISION" do optionalScale
        return .builtIn
      else if i.isWord "CHARACTER" || i.isWord "CHAR" then
        if ← words ["LARGE", "OBJECT"] then optionalSize
        else
          discard (word "VARYING")
          optionalLength
        return .builtIn
      else if i.isWord "BIT" then
        discard (word "VARYING")
        optionalSize
        return .builtIn
      else if i.isWord "TIMESTAMP" || i.isWord "TIME" then
        optionalSize
        optionalZone
        return .builtIn
      else if i.isWord "DATETIME64" then
        discard <| parenthesized do
          discard wholeNumber
          if ← token .comma then literalString r.dialect
        return .builtIn
      else if i.isWord "FIXEDSTRING" then
        discard (parenthesized wholeNumber)
        return .builtIn
      else if i.isWord "INTERVAL" then return .interval
      else if isType ["ENUM", "ENUM8", "ENUM16", "SET"] then
        literalStrings
        return .builtIn
      else if i.isWord "ARRAY" then
        expect (operator "<")
        discard (dataTypeUpTo r fuel)
        expect (operator ">")
        return .builtIn
      else if i.isWord "ANY" && (← peekWord "TYPE") then
        expectWord "TYPE"
        return .builtIn
      else if i.isWord "TABLE" then
        discard (parenthesized (commaSeparated (columnDefinition r (dataTypeUpTo r fuel))))
        return .builtIn
      else
        match i.token with
        | .word _ _ =>
          modify (i :: ·)
          customType
        | _ => fail
    arraySuffix r.dialect
    return kind

def dataType (r : Rules) : Parser TypeKind := do
  dataTypeUpTo r ((← get).length + 1)

def column (r : Rules) : Parser Unit := columnDefinition r (dataType r)

def aliasColumns (r : Rules) : Parser Unit := do
  if ← token .openParen then
    discard <| commaSeparated do
      discard identifier
      discard (maybe (dataType r))
    expect .closeParen

def tableAlias (r : Rules) : Parser (Option Ident) := do
  match ← optionalAlias tableClauseWords with
  | some i =>
    aliasColumns r
    return some i
  | none => return none

end SqlAtlas.Grammar
