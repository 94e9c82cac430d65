import SqlAtlas.Name
import SqlAtlas.Text.Line

/-!
# Symbols

The objects that a file defines, with the columns of those that have rows.
-/

namespace SqlAtlas

set_option autoImplicit false

open Text

inductive SymbolKind where
  | table
  | view
  | procedure
  | function
  | tableType
deriving DecidableEq, Repr, Inhabited

def SymbolKind.hasColumns : SymbolKind → Bool
  | table => true
  | view => true
  | tableType => true
  | procedure => false
  | function => false

structure ColumnDef where
  name : Name
  /-- The name as written, without delimiters. -/
  raw : List Char
  dataType : Option (List Char)
  place : Extent
deriving DecidableEq, Repr, Inhabited

structure SymbolDef where
  name : Name
  /-- The name as written, without delimiters. -/
  raw : List Char
  uri : String
  place : Extent
  kind : SymbolKind
  columns : List ColumnDef
deriving DecidableEq, Repr, Inhabited

end SqlAtlas
