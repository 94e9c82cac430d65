import SqlAtlas.Keyword
import SqlAtlas.LocalTable
import SqlAtlas.Scope.Statement

/-!
# Routines

A procedure, function or trigger runs from its header to the next definition or batch separator.
Its parameters are declared in the header and used after it; its local tables are those that its
tokens declare or fill.
-/

namespace SqlAtlas

set_option autoImplicit false

open Text

inductive RoutineKind where
  | procedure
  | function
  | trigger
deriving DecidableEq, Repr, Inhabited

structure Variable where
  name : Name
  span : Span
deriving DecidableEq, Repr, Inhabited

structure Routine where
  kind : RoutineKind
  name : Name
  span : Span
  parameters : List Variable
  /-- The uses of declared parameters after the header. -/
  usages : List Variable
  locals : LocalTables
deriving DecidableEq, Repr, Inhabited

namespace Routine

inductive Boundary where
  /-- A batch separator, or a definition of something else. -/
  | other
  /-- The header of a routine, with the number of tokens in front of its name. -/
  | routine (kind : RoutineKind) (lead : Nat)
deriving DecidableEq, Repr

/-- The definition that a word after `CREATE` announces, `lead` tokens into the header. -/
def definition? (lead : Nat) : List Token → Option Boundary
  | t :: rest =>
    if t.isKeyword "PROCEDURE" || t.isKeyword "PROC" then some (.routine .procedure (lead + 1))
    else if t.isKeyword "FUNCTION" then some (.routine .function (lead + 1))
    else if t.isKeyword "TRIGGER" then some (.routine .trigger (lead + 1))
    else if t.isKeyword "VIEW" || t.isKeyword "TYPE" then some .other
    else if t.isKeyword "TABLE" then
      if (rest.head?.bind Token.identifier?).any isLocalSpelling then none else some .other
    else none
  | [] => none

def boundary? (separates : Lexeme → Bool) (l : Lexeme) (rest : List Lexeme) : Option Boundary :=
  if separates l then some .other
  else if !l.token.isKeyword "CREATE" then none
  else
    match rest.map (·.token) with
    | a :: b :: more =>
      if a.isKeyword "OR" && b.isKeyword "ALTER" then definition? 3 more
      else definition? 1 (a :: b :: more)
    | more => definition? 1 more

def segments (separates : Lexeme → Bool) : List Lexeme → List Lexeme × List (Boundary × List Lexeme)
  | [] => ([], [])
  | l :: rest =>
    let (lead, more) := segments separates rest
    match boundary? separates l rest with
    | some b => ([], (b, l :: lead) :: more)
    | none => (l :: lead, more)

def headerName : List Token → List (List Char) × Nat
  | .word value _ :: .period :: rest =>
    let r := headerName rest
    (value :: r.1, r.2 + 2)
  | .word value _ :: _ => ([value], 1)
  | _ => ([], 0)

def variableAt (l : Lexeme) : Variable :=
  ⟨Name.ofChars (l.token.identifier?.getD []), l.span⟩

/-- The parameters of a header and the tokens after it. The header ends at `AS`, unless that stands
between a parameter and its type, and at `RETURNS`. -/
def header (prev : Token) (depth : Nat) : List Lexeme → List Variable × List Lexeme
  | [] => ([], [])
  | l :: rest =>
    let t := l.token
    let d := Statement.depthAfter depth t
    if d == 0 && ((t.isKeyword "AS" && !prev.isVariable) || t.isKeyword "RETURNS") then
      ([], l :: rest)
    else
      let r := header t d rest
      if t.isVariable && decide (d ≤ 1) then (variableAt l :: r.1, r.2) else r

/-- The first word of every row of a parenthesised block whose inside starts here, constraints
left out. -/
def rowNames (depth : Nat) (rowStart : Bool) : List Token → List Name
  | [] => []
  | .openParen :: rest => rowNames (depth + 1) rowStart rest
  | .closeParen :: rest => if depth ≤ 1 then [] else rowNames (depth - 1) rowStart rest
  | .comma :: rest => rowNames depth (rowStart || depth == 1) rest
  | t :: rest =>
    if rowStart && depth == 1 then
      match t with
      | .word value quote =>
        if quote.isNone && Keyword.isConstraintWord value then rowNames depth false rest
        else Name.ofChars value :: rowNames depth false rest
      | _ => rowNames depth false rest
    else rowNames depth rowStart rest

def blockNames? : List Token → Option (List Name)
  | .openParen :: rest => some (rowNames 1 true rest)
  | _ => none

/-- The tokens after the nearest `SELECT` outside parentheses; the tokens come nearest first. -/
def selectList (depth : Nat) (acc : List Token) : List Token → Option (List Token)
  | [] => none
  | t :: before =>
    match t with
    | .closeParen => selectList (depth + 1) (t :: acc) before
    | .openParen => selectList (depth - 1) (t :: acc) before
    | _ =>
      if depth == 0 && t.isKeyword "SELECT" then some acc
      else selectList depth (t :: acc) before

def commaPieces (depth : Nat) : List Token → List (List Token)
  | [] => [[]]
  | t :: rest =>
    if t == .comma && depth == 0 then [] :: commaPieces depth rest
    else match commaPieces (Statement.depthAfter depth t) rest with
      | piece :: more => (t :: piece) :: more
      | [] => [[t]]

def outputName? (item : List Token) : Option (List Char) :=
  match item with
  | first :: .operator ['='] :: _ => first.identifier?
  | _ => item.getLast?.bind Token.identifier?

/-- The output names of the select list before `INTO`; the tokens come nearest first. -/
def selectedNames (before : List Token) : List Name :=
  match selectList 0 [] before with
  | none => []
  | some toks =>
    (((commaPieces 0 toks).filterMap outputName?).filter fun n => !Keyword.isReserved n).map
      Name.ofChars

def wordAt? (ok : List Char → Bool) (toks : List Token) : Option (List Char) :=
  (toks.head?.bind Token.identifier?).filter ok

def startsWith (c : Char) (w : List Char) : Bool := w.head? == some c

/-- The local table that the token `t` declares or fills, with the columns it gives it. -/
def localAt? (before : List Token) (t : Token) (rest : List Token) : Option (Name × List Name) :=
  let isAt (n : Nat) (keyword : String) := (rest.drop n).head?.any (·.isKeyword keyword)
  if t.isKeyword "DECLARE" then do
    let name ← wordAt? (startsWith '@') rest
    let j := if isAt 1 "AS" then 2 else 1
    let columns ← if isAt j "TABLE" then blockNames? (rest.drop (j + 1)) else none
    return (Name.ofChars name, columns)
  else if t.isKeyword "CREATE" && isAt 0 "TABLE" then do
    let name ← wordAt? (startsWith '#') (rest.drop 1)
    let columns ← blockNames? (rest.drop 2)
    return (Name.ofChars name, columns)
  else if t.isKeyword "RETURNS" then do
    let name ← wordAt? (startsWith '@') rest
    let columns ← if isAt 1 "TABLE" then blockNames? (rest.drop 2) else none
    return (Name.ofChars name, columns)
  else if t.isKeyword "INSERT" then do
    let j := if isAt 0 "INTO" then 1 else 0
    let name ← wordAt? isLocalSpelling (rest.drop j)
    return (Name.ofChars name, (blockNames? (rest.drop (j + 1))).getD [])
  else if t.isKeyword "INTO" then
    if before.head?.any fun p => p.isKeyword "INSERT" || p.isKeyword "MERGE" then none
    else do
      let name ← wordAt? (startsWith '#') rest
      return (Name.ofChars name, selectedNames before)
  else none

/-- The local tables of a routine; `before` holds the tokens already read, nearest first. -/
def localsFrom (before : List Token) (acc : LocalTables) : List Token → LocalTables
  | [] => acc
  | t :: rest =>
    let acc := match localAt? before t rest with
      | some (table, columns) => acc.add table columns
      | none => acc
    localsFrom (t :: before) acc rest

def spanOf (ls : List Lexeme) : Span :=
  ⟨(ls.head?.map (·.span.start)).getD 0, (ls.getLast?.map (·.span.stop)).getD 0⟩

def ofSegment (kind : RoutineKind) (lead : Nat) (ls : List Lexeme) : Routine :=
  let toks := ls.map (·.token)
  let (parts, used) := headerName (toks.drop lead)
  let k := lead + used
  let (parameters, body) := header ((toks[k - 1]?).getD .comma) 0 (ls.drop k)
  let declared := parameters.map (·.name)
  { kind := kind
    name := Name.ofChars (joinWithChar '.' parts)
    span := spanOf ls
    parameters := parameters
    usages := ((body.filter (·.token.isVariable)).map variableAt).filter fun v =>
      declared.contains v.name
    locals := localsFrom [] {} toks }

def all (separates : Lexeme → Bool) (ls : List Lexeme) : List Routine :=
  (segments separates ls).2.filterMap fun s =>
    match s.1 with
    | .routine kind lead => some (ofSegment kind lead s.2)
    | .other => none

end Routine

end SqlAtlas
