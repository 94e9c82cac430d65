import SqlAtlas.Keyword
import SqlAtlas.Token

/-!
# Statements

A list of tokens is cut into statements at semicolons, at batch separators and before words that
begin a statement, unless the word continues the statement it stands in. Nothing is cut inside
parentheses.
-/

namespace SqlAtlas.Statement

set_option autoImplicit false

open Text

/-- Whether only blanks stand between the start of the line and byte `offset`. -/
def startsLine (cs : List Char) (offset : Nat) : Bool :=
  ((takeBytes offset cs).reverse.takeWhile (· != '\n')).all isBlank

/-- Whether a token separates batches: the bare word `GO` at the start of its line. -/
def isBatchSeparator (cs : List Char) (l : Lexeme) : Bool :=
  l.token.isKeyword "GO" && startsLine cs l.span.start

structure Pending where
  /-- Its tokens, the last one first. -/
  reversed : List Lexeme := []
  /-- Its leading word in upper case. -/
  head : List Char := []
  depth : Nat := 0
  caseDepth : Nat := 0
  /-- Whether the row source of an insertion has been seen. -/
  sourceSeen : Bool := false
  /-- Whether the assignments of an update have been seen. -/
  setSeen : Bool := false
  /-- Whether a list of named subqueries still waits for its statement. -/
  ctePending : Bool := false
deriving Repr

namespace Pending

def finish (p : Pending) : List (List Lexeme) :=
  if p.reversed.isEmpty then [] else [p.reversed.reverse]

/-- A statement that starts with `l`, inside `depth` parentheses after it. -/
def start (depth : Nat) (l : Lexeme) : Pending :=
  let head := (l.token.bareWord?.map asciiUpper).getD []
  { reversed := [l], head := head, depth := depth, ctePending := head == "WITH".toList }

def push (p : Pending) (l : Lexeme) : Pending := { p with reversed := l :: p.reversed }

def headIs (p : Pending) (word : String) : Bool := p.head == word.toList

end Pending

def depthAfter (depth : Nat) : Token → Nat
  | .openParen => depth + 1
  | .closeParen => depth - 1
  | _ => depth

/-- Words after which a statement goes on. -/
def continuingWords : List String :=
  ["UNION", "ALL", "EXCEPT", "INTERSECT", "FOR", "AFTER", "OF", "ON", "GRANT", "DENY", "REVOKE",
   "WITH", "INSTEAD"]

/-- Words after `WITH` that are options and name no subquery. -/
def withOptions : List String :=
  ["SCHEMABINDING", "ENCRYPTION", "RECOMPILE", "VIEW_METADATA", "NATIVE_COMPILATION", "EXECUTE",
   "EXEC", "CHECK", "NOCHECK", "TIES", "ROLLUP", "CUBE"]

def startsCteList : List Lexeme → Bool
  | name :: next :: _ =>
    name.token.identifier?.isSome && !name.token.bareWord?.any (Keyword.oneOf withOptions) &&
      (next.token.isKeyword "AS" || next.token == .openParen)
  | _ => false

def continuesAfter (word : String) (t : Token) : Bool :=
  match t with
  | .comma => true
  | .openParen => true
  | _ =>
    t.bareWord?.any fun w =>
      Keyword.oneOf continuingWords w ||
        (word == "FETCH" && Keyword.oneOf ["ROWS", "ROW"] w) ||
        (word == "SET" && Keyword.oneOf ["DELETE", "UPDATE"] w)

/-- The open statement if it goes on with the beginning word `word`, which is in upper case. -/
def absorb? (p : Pending) (word : String) : Option Pending :=
  if p.headIs "UPDATE" && word == "SET" && !p.setSeen then some { p with setSeen := true }
  else if p.headIs "INSERT" && ["SELECT", "EXEC", "EXECUTE", "WITH"].contains word &&
      !p.sourceSeen then some { p with sourceSeen := true }
  else if p.headIs "WITH" && p.ctePending &&
      ["SELECT", "INSERT", "UPDATE", "DELETE", "MERGE"].contains word then
    some { p with ctePending := false, head := word.toList }
  else if p.headIs "MERGE" && ["UPDATE", "DELETE", "INSERT", "SET"].contains word then some p
  else if p.headIs "ALTER" && ["ALTER", "DROP"].contains word then some p
  else none

/-- The open statement if the word `w`, between `prev` and `rest`, does not begin a new one. -/
def continue? (p : Pending) (prev : Option Lexeme) (w : List Char) (rest : List Lexeme) :
    Option Pending :=
  let word := String.ofList (asciiUpper w)
  if !Keyword.startsStatement w then some p
  else if prev.any fun l => continuesAfter word l.token then some p
  else if word == "WITH" && !startsCteList rest then some p
  else if word == "UPDATE" && (rest.head?.map (·.token)) == some .openParen then some p
  else absorb? p word

/-- Takes in a token outside parentheses: the statement goes on, or a new one starts. -/
def advance (p : Pending) (prev : Option Lexeme) (l : Lexeme) (rest : List Lexeme) :
    Option Pending :=
  match l.token.bareWord? with
  | none => some p
  | some w =>
    if Keyword.isWord "CASE" w then some { p with caseDepth := p.caseDepth + 1 }
    else if Keyword.isWord "END" w && p.caseDepth != 0 then
      some { p with caseDepth := p.caseDepth - 1 }
    else continue? p prev w rest

/-- Cuts tokens into statements; `separates` tells the batch separators. -/
def splitFrom (separates : Lexeme → Bool) (prev : Option Lexeme) (p : Pending) :
    List Lexeme → List (List Lexeme)
  | [] => p.finish
  | l :: rest =>
    if p.depth == 0 && (l.token == .semicolon || separates l) then
      p.finish ++ splitFrom separates (some l) {} rest
    else
      let depth := depthAfter p.depth l.token
      if p.reversed.isEmpty then splitFrom separates (some l) (.start depth l) rest
      else if p.depth != 0 then splitFrom separates (some l) { p.push l with depth := depth } rest
      else match advance { p with depth := depth } prev l rest with
        | some q => splitFrom separates (some l) (q.push l) rest
        | none => p.finish ++ splitFrom separates (some l) (.start 0 l) rest

def split (separates : Lexeme → Bool) (ls : List Lexeme) : List (List Lexeme) :=
  splitFrom separates none {} ls

end SqlAtlas.Statement
