import SqlAtlas.Alias
import SqlAtlas.NameSet
import SqlAtlas.Text.Line

/-!
# References

A reference is a use of a table, a column, a parameter or a routine at a place of a file. A column
that several tables of its statement have is ambiguous: it gives a provisional reference for each
of them, and an ambiguity that can be settled later.
-/

namespace SqlAtlas

set_option autoImplicit false

open Text

inductive ReferenceKind where
  | table
  | column
  | parameter
  | routine
deriving DecidableEq, Repr, Inhabited

structure Reference where
  name : Name
  uri : String
  place : Extent
  kind : ReferenceKind
deriving DecidableEq, Repr, Inhabited

structure Location where
  uri : String
  place : Extent
deriving DecidableEq, Repr, Inhabited

def Reference.location (r : Reference) : Location := ⟨r.uri, r.place⟩

structure Ambiguity where
  place : Extent
  column : Name
  /-- The tables that a provisional reference names. -/
  provisional : List Name
  /-- All tables in scope. -/
  candidates : NameSet
  aliases : AliasMap
  /-- The text of the statement. -/
  statement : List Char
deriving DecidableEq, Repr, Inhabited

structure Extraction where
  references : List Reference := []
  ambiguities : List Ambiguity := []
  /-- Whether references were left out because there are too many. -/
  truncated : Bool := false
deriving DecidableEq, Repr, Inhabited

/-- What is known about columns: whether a table has a column. -/
abbrev Catalog := Name → Name → Bool

end SqlAtlas
