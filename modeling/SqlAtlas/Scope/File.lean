import SqlAtlas.Scope.Clause
import SqlAtlas.Scope.Routine
import SqlAtlas.Text.Block
import SqlAtlas.Text.Line

/-!
# Scopes of a file

Every statement of a file with its aliases, its candidate tables and the local tables of the
routine it stands in. A text that has no tokens as a whole is cut at its semicolons, and the pieces
that have tokens are kept.
-/

namespace SqlAtlas

set_option autoImplicit false

open Text

structure StatementScope where
  span : Span := ⟨0, 0⟩
  aliases : AliasMap := {}
  candidates : NameSet := []
  locals : LocalTables := {}
deriving DecidableEq, Repr, Inhabited

structure FileScopes where
  statements : List StatementScope := []
  routines : List Routine := []
  /-- The aliases of all statements; the first binding of an alias stays. -/
  aliases : AliasMap := {}
deriving DecidableEq, Repr, Inhabited

namespace FileScopes

structure Cut where
  tokens : List Lexeme := []
  statements : List (List Lexeme) := []
deriving Repr

/-- The tokens of a piece of `cs` and its statements; none if the piece has no tokens. -/
def cutPiece? (cs : List Char) (piece : Span) : Option Cut :=
  (lexemes? .tsql piece.start (slice cs piece)).map fun ls =>
    ⟨ls, Statement.split (Statement.isBatchSeparator cs) ls⟩

def cut (cs : List Char) : Cut :=
  match cutPiece? cs ⟨0, size cs⟩ with
  | some whole => whole
  | none =>
    let pieces := (splitOnSemicolons cs).filterMap (cutPiece? cs)
    ⟨pieces.flatMap (·.tokens), pieces.flatMap (·.statements)⟩

/-- The local tables at byte `offset`: those of the first routine around it. -/
def localsAt (routines : List Routine) (offset : Nat) : LocalTables :=
  match routines.find? fun r => decide (r.span.start ≤ offset) && decide (offset < r.span.stop) with
  | some r => r.locals
  | none => {}

def statementScope (routines : List Routine) (ls : List Lexeme) : StatementScope :=
  let sources := Clause.sources (ls.map (·.token))
  let span := Routine.spanOf ls
  ⟨span, sources.aliases, sources.candidates, localsAt routines span.start⟩

def ofText (cs : List Char) : FileScopes :=
  let c := cut cs
  let routines := Routine.all (Statement.isBatchSeparator cs) c.tokens
  let statements := c.statements.map (statementScope routines)
  ⟨statements, routines, statements.foldl (fun m s => m.extendMissing s.aliases) {}⟩

/-- The last statement that starts at byte `offset` or before, if it does not end before. -/
def scopeAt? (f : FileScopes) (offset : Nat) : Option StatementScope :=
  (f.statements.takeWhile fun s => decide (s.span.start ≤ offset)).getLast?.filter fun s =>
    decide (offset ≤ s.span.stop)

end FileScopes

/-- The scope of the statement around byte `offset`; empty between statements. -/
def resolveScope (cs : List Char) (offset : Nat) : StatementScope :=
  ((FileScopes.ofText cs).scopeAt? offset).getD {}

end SqlAtlas
