import SqlAtlas.Text.Alphabetic
import SqlAtlas.Text.Lower

/-!
# Dialects

The grammar that a statement is parsed with, and the characters that its identifiers are made of.
-/

namespace SqlAtlas

set_option autoImplicit false

open Text

inductive Dialect where
  | tsql
  | generic
  | ansi
deriving DecidableEq, Repr, Inhabited

namespace Dialect

def tag : Dialect → String
  | tsql => "tsql"
  | generic => "generic"
  | ansi => "ansi"

def names : List (String × Dialect) :=
  [("tsql", tsql), ("mssql", tsql), ("generic", generic), ("ansi", ansi)]

/-- Reads the name of a dialect, whatever the case of its ASCII letters. -/
def ofText? (name : String) : Option Dialect :=
  names.lookup (String.ofList (asciiLower name.toList))

def unknownMessage (name : String) : String :=
  "unknown dialect '" ++ String.ofList (asciiLower name.toList) ++
    "' (expected tsql, generic or ansi)"

def isIdentifierStart : Dialect → Char → Bool
  | tsql, c => isAlphabetic c || c == '_' || c == '#' || c == '@'
  | generic, c => isAlphabetic c || c == '_' || c == '#' || c == '@'
  | ansi, c => isAsciiLetter c

def isIdentifierPart : Dialect → Char → Bool
  | tsql, c => isAlphabetic c || c.isDigit || c == '@' || c == '$' || c == '#' || c == '_'
  | generic, c => isAlphabetic c || c.isDigit || c == '@' || c == '$' || c == '#' || c == '_'
  | ansi, c => isAsciiLetter c || c.isDigit || c == '_'

def isDelimitedStart : Dialect → Char → Bool
  | tsql, c => c == '"' || c == '['
  | generic, c => c == '"' || c == '\x60'
  | ansi, c => c == '"' || c == '\x60'

end Dialect

end SqlAtlas
