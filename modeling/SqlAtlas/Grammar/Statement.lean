import SqlAtlas.Grammar.Declaration

/-!
# Statements of a text

The main definition reads all statements of a text in a dialect, or refuses the text as a whole.
-/

namespace SqlAtlas.Grammar

set_option autoImplicit false

open SqlAtlas.Grammar.Parser

def plainStatement? (r : Rules) (k : String) : Option (Parser Unit) :=
  match k with
  | "CREATE" => some (createTail r)
  | "DROP" => some (dropTail r)
  | "TRUNCATE" => some (truncateTail r)
  | "ALTER" => some (alterTail r)
  | "DECLARE" => some (declareTail r)
  | "SET" => some (setTail r)
  | "COMMIT" => some chainTail
  | "ROLLBACK" => some rollbackTail
  | "BEGIN" => some (beginTail r.dialect)
  | "END" => some (endTail r.dialect)
  | "START" => some (expectWord "TRANSACTION" *> transactionModes)
  | "SAVEPOINT" => some (discard identifier)
  | "EXEC" => some (executeTail r)
  | "EXECUTE" => some (executeTail r)
  | "CALL" => some (callStatement r)
  | "CLOSE" => some (discard identifier)
  | "FETCH" => some (fetchTail r)
  | "DEALLOCATE" => some (word "PREPARE" *> discard identifier)
  | "USE" => some (discard objectName)
  | "RAISERROR" => some (raiseTail r)
  | "KILL" => some (anyWord ["CONNECTION", "QUERY"] *> discard wholeNumber)
  | "GRANT" => some do
      privilegeTail "TO"
      discard (words ["WITH", "GRANT", "OPTION"])
      if ← words ["GRANTED", "BY"] then discard identifier
  | "REVOKE" => some do
      privilegeTail "FROM"
      if ← words ["GRANTED", "BY"] then discard identifier
      discard (anyWord ["CASCADE", "RESTRICT"])
  | _ => none

def statementRule (r : Rules) : Parser Statement := do
  let items ← get
  let i ← next
  match i.token, i.keyword with
  | .openParen, _ =>
    set items
    return .query (← r.query)
  | _, some k =>
    if ["SELECT", "WITH", "VALUES"].contains k then
      set items
      return .query (← r.query)
    else if k == "INSERT" then insertTail r
    else if k == "UPDATE" then updateTail r
    else if k == "DELETE" then deleteTail r
    else if k == "MERGE" then mergeTail r
    else match plainStatement? r k with
      | some rule =>
        rule
        return .other
      | none => fail
  | _, none => fail

/-- The rules with the given number of levels left. -/
def rules (d : Dialect) : Nat → Rules
  | 0 => .exhausted d
  | n + 1 =>
    let inner := rules d n
    ⟨d, statementRule inner, queryRule inner, expressionRule inner⟩

/-- How many statements, queries and expressions may stand inside one another. -/
def maxNesting : Nat := 50

/-- Whether a character may stand before the first statement. -/
def isFiller (c : Char) : Bool := c == ';' || Text.isBlank c

/-- The statements of a text. Whatever stands after the word `END` behind a statement is ignored. -/
def statementsOf? (d : Dialect) (text : List Char) : Option (List Statement) :=
  match lexemes? d 0 (text.dropWhile isFiller) with
  | none => none
  | some lexemes =>
    match statements (rules d maxNesting) (lexemes.map fun l => Item.ofToken l.token) with
    | .ok (found, _) => some found
    | .error _ => none

end SqlAtlas.Grammar
