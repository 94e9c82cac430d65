import SqlAtlas.Grammar.DataType

/-!
# Expressions

An expression is a first operand followed by operators. An operator is taken as long as it binds
tighter than the power that the caller asks for, and its right operand asks for its own power, so
equal powers group to the left.
-/

namespace SqlAtlas.Grammar

set_option autoImplicit false

open SqlAtlas.Grammar.Parser

/-! ## Binding powers -/

def pathPower : Nat := 100

def productPower : Nat := 40

def comparisonPower : Nat := 20

def patternPower : Nat := 19

def negationPower : Nat := 15

def signPowers : List (Nat × List String) :=
  [(comparisonPower, ["=", "<", "<=", "<>", "!=", ">", ">=", "==", "~", "~*", "!~", "!~*", "~~",
      "~~*", "!~~", "!~~*", "<=>"]),
   (21, ["|"]), (22, ["^", "#", ">>", "<<"]), (23, ["&"]), (30, ["+", "-"]),
   (productPower, ["*", "/", "//", "%", "||"]), (50, ["::", "!", "[", "&&", "^@"]),
   (16, ["->", "->>", "#>", "#>>", "@>", "<@", "#-", "@?", "@@"])]

def patternWords : List String := ["LIKE", "ILIKE", "RLIKE", "REGEXP", "SIMILAR"]

def wordPower (k : String) (after : List Item) : Nat :=
  let follows (n : Nat) (w : String) : Bool := (after.drop n).head?.any (·.isWord w)
  if k == "OR" then 5
  else if k == "AND" then 10
  else if k == "XOR" then 24
  else if k == "AT" then if follows 0 "TIME" && follows 1 "ZONE" then 41 else 0
  else if k == "NOT" then
    if follows 0 "IN" || follows 0 "BETWEEN" then comparisonPower
    else if patternWords.any (follows 0) then patternPower
    else 0
  else if k == "IS" then 17
  else if ["IN", "BETWEEN", "OVERLAPS", "OPERATOR"].contains k then comparisonPower
  else if patternWords.contains k then patternPower
  else if k == "DIV" then productPower
  else 0

/-- The power of the operator at the front; zero if there is none. -/
def power : List Item → Nat
  | [] => 0
  | i :: after =>
    match i.token, i.keyword with
    | .operator s, _ => ((signPowers.find? (·.2.contains (String.ofList s))).map (·.1)).getD 0
    | _, some k => wordPower k after
    | _, none => 0

def isBinarySign (d : Dialect) (sign : String) : Bool :=
  if ["!", "#", "[", "::"].contains sign then false
  else if ["//", "<<", ">>", "&&", "^@"].contains sign then d = .generic
  else true

/-- Operators that may be applied to `ALL` or `ANY` of some values. -/
def quantifiableSigns : List String :=
  ["=", "==", "<", "<=", "<>", "!=", ">", ">="]

/-! ## Paths -/

/-- Where a name followed by periods leads. -/
inductive PathTail where
  /-- To all columns; the items after the star. -/
  | star (rest : List Item)
  | plain
  | broken

def pathTail : List Item → PathTail
  | p :: i :: rest =>
    if p.token == .period then
      if i.token == operator "*" then .star rest
      else if i.ident?.isSome then pathTail rest
      else .broken
    else .plain
  | [p] => if p.token == .period then .broken else .plain
  | [] => .plain

/-- An expression, or nothing for all columns of a table or of everything. -/
def expressionOrStar (r : Rules) : Parser (Option Expr) := do
  match ← get with
  | i :: rest =>
    if i.token == operator "*" then
      set rest
      return none
    else if i.ident?.isSome then
      match pathTail rest with
      | .star after =>
        set after
        return none
      | .plain => return some (← r.expr)
      | .broken => fail
    else return some (← r.expr)
  | [] => fail

def subscript (r : Rules) : Parser Expr := do
  let lower ← optional (return !(← token (operator ":"))) (return [← r.expr])
  if ← token (operator "]") then return .compound lower
  unless lower.isEmpty do expect (operator ":")
  if ← token (operator "]") then return .compound lower
  let upper ← r.expr
  if ← token (operator "]") then return .compound (lower ++ [upper])
  expect (operator ":")
  if ← token (operator "]") then return .compound (lower ++ [upper])
  let stride ← r.expr
  expect (operator "]")
  return .compound (lower ++ [upper, stride])

def pathStepsUpTo (r : Rules) : Nat → Parser (List Expr)
  | 0 => fail
  | fuel + 1 => do
    match ← get with
    | [] => return []
    | i :: rest =>
      if i.token == .period then
        match rest with
        | ⟨.operator ['*'], _⟩ :: _ => return []
        | ⟨.string s, _⟩ :: after =>
          set after
          return .column [⟨s, some '\''⟩] :: (← pathStepsUpTo r fuel)
        | _ =>
          set rest
          let steps := match ← r.expression pathPower with
            | .access root chain => root :: chain
            | .column path => path.map fun part => .column [part]
            | e => [e]
          return steps ++ (← pathStepsUpTo r fuel)
      else if i.token == operator "[" then
        set rest
        let step ← subscript r
        return step :: (← pathStepsUpTo r fuel)
      else return []

def Expr.isCall : Expr → Bool
  | .call _ => true
  | _ => false

/-- Puts a root and the steps after it together: names make one name, names before a call are the
name of the function. -/
def joinPath (root : Expr) (chain : List Expr) : Expr :=
  match chain.getLast? with
  | none => root
  | some last =>
    let all := root :: chain
    if all.all Expr.isName then .column (all.filterMap Expr.name?)
    else if last.isCall && all.dropLast.all Expr.isName then last
    else .access root chain

/-! ## Calls -/

/-- How the name of an argument is set apart from its value. -/
def argumentMark (d : Dialect) : Parser Unit := do
  if ← word "VALUE" then return
  let marks := match d with
    | .tsql => [":"]
    | .generic => ["=>", ":="]
    | .ansi => ["=>"]
  match (← next).token with
  | .operator s => unless marks.contains (String.ofList s) do fail
  | _ => fail

/-- An argument of a call. A name counts as an expression where any expression may be one. -/
def argument (r : Rules) : Parser (List Expr) := do
  let named : Parser (List Expr) := do
    argumentMark r.dialect
    return (← expressionOrStar r).toList
  if r.dialect = .tsql then
    match ← expressionOrStar r with
    | none => return []
    | some e => return e :: ((← maybe named).getD [])
  else
    match ← maybe (identifier *> named) with
    | some es => return es
    | none => return (← expressionOrStar r).toList

def nullClause : Parser Unit := do
  unless ← words ["ABSENT", "ON", "NULL"] do discard (words ["NULL", "ON", "NULL"])

def nullTreatment : Parser Unit := do
  match ← anyWord ["RESPECT", "IGNORE"] with
  | some _ => expectWord "NULLS"
  | none => pure ()

def arguments (r : Rules) : Parser (List Expr) := do
  nullClause
  if ← token .closeParen then return []
  let all ← word "ALL"
  let distinct ← word "DISTINCT"
  if all && distinct then fail
  let operands := (← commaSeparated (argument r)).flatten
  if r.dialect = .generic then nullTreatment
  let keys ← sortKeys r
  let bound ← r.exprAfter "LIMIT"
  if r.dialect = .generic then
    if ← word "SEPARATOR" then discard (value r.dialect)
  nullClause
  expect .closeParen
  return operands ++ keys ++ bound

/-- Where a value of an interval is written without the word. -/
def dateUnit (d : Dialect) : Parser Unit := do
  match ← anyWord dateParts with
  | some "WEEK" =>
    if ← token .openParen then
      discard identifier
      expect .closeParen
  | some _ => pure ()
  | none => if d = .generic then discard identifier else fail

def intervalUnit (d : Dialect) : Parser Unit := do
  if ← peekAny intervalUnits then
    let seconds ← peekWord "SECOND"
    dateUnit d
    if seconds then optionalScale
    else
      optionalSize
      if ← word "TO" then
        let last ← peekWord "SECOND"
        dateUnit d
        if last then optionalSize
  else if d = .ansi then fail
  else
    optionalSize
    if ← word "TO" then
      let last ← peekWord "SECOND"
      dateUnit d
      if last then optionalSize

/-- An interval whose value is read by `operand`. -/
def interval (r : Rules) (operand : Parser Expr) : Parser Expr := do
  let e ← if r.dialect = .ansi then r.expr else operand
  intervalUnit r.dialect
  return .compound [e]

def frameBound (r : Rules) (operand : Parser Expr) : Parser (List Expr) := do
  if ← words ["CURRENT", "ROW"] then return []
  let rows ← show Parser (List Expr) from do
    if ← word "UNBOUNDED" then return []
    match ← peek with
    | some ⟨.string _, _⟩ => return [← interval r operand]
    | _ => return [← r.expr]
  discard (expectAny ["PRECEDING", "FOLLOWING"])
  return rows

def windowBody (r : Rules) (operand : Parser Expr) : Parser (List Expr) := do
  if (← peek).any Item.isPlainWord then discard identifier
  let parts ← optional (words ["PARTITION", "BY"]) r.exprs
  let keys ← sortKeys r
  let bounds ← show Parser (List Expr) from do
    if ← token .closeParen then return []
    discard (expectAny ["ROWS", "RANGE", "GROUPS"])
    if ← word "BETWEEN" then
      let low ← frameBound r operand
      expectWord "AND"
      let high ← frameBound r operand
      expect .closeParen
      return low ++ high
    else
      let low ← frameBound r operand
      expect .closeParen
      return low
  return parts ++ keys ++ bounds

def callTail (r : Rules) (operand : Parser Expr) : Parser Expr := do
  expect .openParen
  let operands ← show Parser (List Expr) from do
    let first ← arguments r
    if r.dialect = .generic then
      if ← token .openParen then return first ++ (← arguments r)
    return first
  let within ← optional (words ["WITHIN", "GROUP"]) <| parenthesized do
    expectWords ["ORDER", "BY"]
    commaSeparated (sortKey r)
  let filter ← optional (if r.dialect = .generic then word "FILTER" else return false) <|
    parenthesized do
      expectWord "WHERE"
      return [← r.expr]
  nullTreatment
  let window ← show Parser (List Expr) from do
    if ← word "OVER" then
      if ← token .openParen then windowBody r operand
      else
        discard identifier
        return []
    else return []
  return .call (operands ++ filter ++ window ++ within)

/-! ## First operands -/

def caseTail (r : Rules) : Parser Expr := do
  let subject ← show Parser (List Expr) from do
    if ← word "WHEN" then return []
    let e ← r.expr
    expectWord "WHEN"
    return [e]
  let branch : Parser (Expr × Expr) := do
    let condition ← r.expr
    expectWord "THEN"
    return (condition, ← r.expr)
  let first ← branch
  let more ← many do
    if ← word "WHEN" then return some (← branch) else return none
  let branches := first :: more
  let otherwise ← r.exprAfter "ELSE"
  expectWord "END"
  return .compound (subject ++ branches.map (·.1) ++ branches.map (·.2) ++ otherwise)

/-- A conversion after its first word; some dialects write the type first. -/
def convertTail (r : Rules) : Parser Expr := do
  expect .openParen
  if r.dialect = .tsql then
    discard (dataType r)
    expect .comma
    let e ← r.expr
    let styles ← optional (token .comma) r.exprs
    expect .closeParen
    return .compound (e :: styles)
  else
    let e ← r.expr
    if ← word "USING" then discard objectName
    else
      expect .comma
      discard (dataType r)
      if ← words ["CHARACTER", "SET"] then discard objectName
    expect .closeParen
    return .compound [e]

def castTail (r : Rules) : Parser Expr := do
  expect .openParen
  let e ← r.expr
  expectWord "AS"
  discard (dataType r)
  if ← word "FORMAT" then
    discard (value r.dialect)
    if ← words ["AT", "TIME", "ZONE"] then discard (value r.dialect)
  expect .closeParen
  return .compound [e]

def queryTail (r : Rules) : Parser Expr := return .subquery (← parenthesized r.query)

def extractTail (r : Rules) : Parser Expr := do
  expect .openParen
  dateUnit r.dialect
  unless ← word "FROM" do
    if r.dialect = .generic then expect .comma else fail
  let e ← r.expr
  expect .closeParen
  return .compound [e]

def roundingTail (r : Rules) : Parser Expr := do
  expect .openParen
  let e ← r.expr
  if ← word "TO" then dateUnit r.dialect
  else if ← token .comma then
    match ← value r.dialect with
    | .number _ => pure ()
    | _ => fail
  expect .closeParen
  return .compound [e]

def positionTail (r : Rules) (operand : Parser Expr) : Parser Expr := do
  let infixForm : Parser Expr := do
    expect .openParen
    let e ← r.expression comparisonPower
    expectWord "IN"
    let whole ← r.expr
    expect .closeParen
    return .compound [e, whole]
  match ← maybe infixForm with
  | some e => return e
  | none => callTail r operand

def substringTail (r : Rules) : Parser Expr := do
  expect .openParen
  let e ← r.expr
  let start ← show Parser (List Expr) from do
    if ← token .comma then return [← r.expr]
    r.exprAfter "FROM"
  let count ← show Parser (List Expr) from do
    if ← word "FOR" then return [← r.expr]
    optional (token .comma) (return [← r.expr])
  expect .closeParen
  return .compound (e :: start ++ count)

def overlayTail (r : Rules) : Parser Expr := do
  expect .openParen
  let e ← r.expr
  expectWord "PLACING"
  let what ← r.expr
  expectWord "FROM"
  let start ← r.expr
  let count ← r.exprAfter "FOR"
  expect .closeParen
  return .compound ([e, what, start] ++ count)

def trimTail (r : Rules) : Parser Expr := do
  expect .openParen
  discard (anyWord ["BOTH", "LEADING", "TRAILING"])
  let e ← r.expr
  if ← word "FROM" then
    let whole ← r.expr
    expect .closeParen
    return .compound [whole, e]
  let letters ← optional (token .comma) (if r.dialect = .generic then r.exprs else fail)
  expect .closeParen
  return .compound (e :: letters)

def negationTail (r : Rules) : Parser Expr := do
  if ← word "EXISTS" then queryTail r
  else return .compound [← r.expression negationPower]

def arrayTail (r : Rules) : Parser Expr := do
  if ← token (operator "]") then return .compound []
  let es ← r.exprs
  expect (operator "]")
  return .compound es

/-- An expression that a word starts in a way of its own, and the rule for what follows it. -/
def specialTail? (r : Rules) (operand : Parser Expr) (i : Item) (after : List Item) :
    Option (Parser Expr) :=
  let opens (t : Token) : Bool := after.head?.any (·.token == t)
  match i.keyword with
  | none => none
  | some k =>
    if k == "NULL" || (r.dialect ≠ .tsql && (k == "TRUE" || k == "FALSE")) then
      some (return .constant)
    else if ["CURRENT_CATALOG", "CURRENT_USER", "SESSION_USER", "USER"].contains k &&
        r.dialect = .generic then some (return .call [])
    else if ["CURRENT_TIMESTAMP", "CURRENT_TIME", "CURRENT_DATE", "LOCALTIME",
        "LOCALTIMESTAMP"].contains k then
      some (return .call (← optional (token .openParen) (arguments r)))
    else if k == "CASE" then some (caseTail r)
    else if k == "CONVERT" || (k == "TRY_CONVERT" && r.dialect ≠ .ansi) then some (convertTail r)
    else if ["CAST", "TRY_CAST", "SAFE_CAST"].contains k then some (castTail r)
    else if k == "EXISTS" then some (queryTail r)
    else if k == "EXTRACT" then some (extractTail r)
    else if k == "CEIL" || k == "FLOOR" then some (roundingTail r)
    else if k == "POSITION" && opens .openParen then some (positionTail r operand)
    else if k == "SUBSTRING" then some (substringTail r)
    else if k == "OVERLAY" then some (overlayTail r)
    else if k == "TRIM" then some (trimTail r)
    else if k == "INTERVAL" then some (interval r operand)
    else if k == "ARRAY" && opens (operator "[") then
      some (expect (operator "[") *> arrayTail r)
    else if k == "ARRAY" && opens .openParen then
      some (return .call [← queryTail r])
    else if k == "NOT" then some (negationTail r)
    else none

/-- Words that never are a name where they start an expression in a way of their own. -/
def firmWords : List String := ["EXISTS", "INTERVAL", "STRUCT"]

def nameTail (r : Rules) (operand : Parser Expr) (name : Ident) : Parser Expr := do
  match ← peek with
  | some ⟨.openParen, _⟩ => callTail r operand
  | some ⟨.string _, _⟩ =>
    if name.value.head? == some '_' then
      discard next
      return .constant
    else return .column [name]
  | _ => return .column [name]

def collated (e : Expr) : Parser Expr := do
  if ← word "COLLATE" then
    discard objectName
    return .compound [e]
  else return e

/-- An expression that starts with a word: by its own rule if that fits, otherwise as a name. -/
def wordOperand (r : Rules) (operand : Parser Expr) (i : Item) (name : Ident) : Parser Expr := do
  match specialTail? r operand i (← get) with
  | none => collated (← nameTail r operand name)
  | some tail =>
    if firmWords.any i.isWord then collated (← tail)
    else match ← either tail (nameTail r operand name) with
      | .inl e => collated e
      | .inr e => return e

def typedLiteral (r : Rules) (operand : Parser Expr) : Parser Expr := do
  match ← dataType r with
  | .interval => interval r operand
  | .custom => fail
  | .builtIn =>
    literalString r.dialect
    return .constant

def parenthesisTail (r : Rules) : Parser Expr := do
  let e ← if ← peekQuery then Expr.subquery <$> r.query else Expr.compound <$> r.exprs
  expect .closeParen
  return e

def braceTail (r : Rules) (operand : Parser Expr) : Parser Expr := do
  expectWord "FN"
  discard objectName
  let e ← callTail r operand
  expect (operator "\x7d")
  return e

/-- The first operand of an expression; `fuel` bounds the intervals inside intervals. -/
def operandUpTo (r : Rules) : Nat → Parser Expr
  | 0 => fail
  | fuel + 1 => do
    let operand := operandUpTo r fuel
    match ← maybe (typedLiteral r operand) with
    | some e => return e
    | none =>
      let i ← next
      match i.token with
      | .word value quote => wordOperand r operand i ⟨value, quote⟩
      | .number _ | .string _ | .literal | .placeholder => collated .constant
      | .escaped => if r.dialect = .generic then collated .constant else fail
      | .openParen => collated (← parenthesisTail r)
      | .operator ['['] => collated (← arrayTail r)
      | .operator ['-'] | .operator ['+'] =>
        collated (.compound [← r.expression productPower])
      | .operator [':'] | .operator ['@'] =>
        match (← next).token with
        | .word _ _ | .number _ => collated .constant
        | _ => fail
      | .operator ['\x7b'] => collated (← braceTail r operand)
      | _ => fail

def operand (r : Rules) : Parser Expr := do
  operandUpTo r ((← get).length + 1)

/-! ## Operators -/

def rightOperand (r : Rules) (sign : String) (strength : Nat) (left : Expr) : Parser Expr := do
  match ← anyWord ["ANY", "ALL", "SOME"] with
  | some _ =>
    let items ← get
    expect .openParen
    let right ← show Parser Expr from do
      if ← peekQuery then
        set items
        r.expression strength
      else
        let e ← r.expression strength
        expect .closeParen
        return e
    if quantifiableSigns.contains sign then return .compound [left, right] else fail
  | none =>
    let right ← r.expression strength
    if sign == "=" || sign == "==" then return .equation left right
    else return .compound [left, right]

def isTail (r : Rules) (left : Expr) : Parser Expr := do
  discard (word "NOT")
  if ← anyWords [["NULL"], ["TRUE"], ["FALSE"], ["UNKNOWN"]] then return .compound [left]
  else if ← words ["DISTINCT", "FROM"] then return .compound [left, ← r.expr]
  else fail

def membershipTail (r : Rules) (left : Expr) : Parser Expr := do
  if ← word "UNNEST" then return .compound [left, ← parenthesized r.expr]
  parenthesized do
    if ← peekQuery then return .compound [left, .subquery (← r.query)]
    else return .compound (left :: (← r.exprs))

def rangeTail (r : Rules) (left : Expr) : Parser Expr := do
  let low ← r.expression comparisonPower
  expectWord "AND"
  let high ← r.expression comparisonPower
  return .compound [left, low, high]

def patternTail (r : Rules) (k : String) (left : Expr) : Parser Expr := do
  if k == "SIMILAR" then expectWord "TO"
  else if k == "LIKE" || k == "ILIKE" then discard (word "ANY")
  let pattern ← r.expression patternPower
  unless k == "RLIKE" || k == "REGEXP" do
    if ← word "ESCAPE" then literalString r.dialect
  return .compound [left, pattern]

def operatorName : Parser Unit := do
  expect .openParen
  discard (periodSeparated next)
  expect .closeParen

/-- An operator that is a word, and what follows it. -/
def wordOperator (r : Rules) (strength : Nat) (k : String) (left : Expr) : Parser Expr := do
  if k == "AND" || k == "OR" || k == "XOR" || k == "OVERLAPS" then rightOperand r k strength left
  else if k == "OPERATOR" then
    operatorName
    rightOperand r k strength left
  else if k == "IS" then isTail r left
  else if k == "AT" then
    expectWords ["TIME", "ZONE"]
    return .compound [left, ← r.expression strength]
  else
    let test ← if k == "NOT" then expectAny ("IN" :: "BETWEEN" :: patternWords) else pure k
    if test == "IN" then membershipTail r left
    else if test == "BETWEEN" then rangeTail r left
    else if patternWords.contains test then patternTail r test left
    else fail

def operatorTail (r : Rules) (strength : Nat) (left : Expr) : Parser Expr := do
  let i ← next
  match i.token, i.keyword with
  | .operator s, _ =>
    let sign := String.ofList s
    if sign == "::" then
      discard (dataType r)
      return .compound [left]
    else if isBinarySign r.dialect sign then rightOperand r sign strength left
    else fail
  | _, some k => wordOperator r strength k left
  | _, none => fail

/-- The operators after a first operand that bind tighter than `least`, at most `fuel` of them. -/
def operatorsUpTo (r : Rules) (least : Nat) : Nat → Expr → Parser Expr
  | 0, _ => fail
  | fuel + 1, left => do
    let strength := power (← get)
    if least < strength then
      let e ← operatorTail r strength left
      operatorsUpTo r least fuel e
    else return left

/-- An expression whose operators all bind tighter than `least`. -/
def expressionRule (r : Rules) (least : Nat) : Parser Expr := do
  let root ← operand r
  let chain ← pathStepsUpTo r ((← get).length + 1)
  operatorsUpTo r least ((← get).length + 1) (joinPath root chain)

end SqlAtlas.Grammar
