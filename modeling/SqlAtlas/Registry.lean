import SqlAtlas.Dict
import SqlAtlas.NameSet
import SqlAtlas.Symbol

/-!
# Columns of tables

Which columns every table has. Several files may define one table: the definition that came in last
counts, and taking its file out brings the one before it back.
-/

namespace SqlAtlas

set_option autoImplicit false

/-- The columns that one file gives a table, in declaration order and each once. -/
structure Contribution where
  uri : String
  columns : List Name
deriving DecidableEq, Repr, Inhabited

/-- The contributions to every table, the latest last; a table without any is not listed. -/
structure ColumnRegistry where
  tables : Dict Name (List Contribution) := {}
deriving DecidableEq, Repr

namespace ColumnRegistry

instance : Inhabited ColumnRegistry := ⟨{}⟩

def without (uri : String) (cs : List Contribution) : List Contribution :=
  cs.filter fun c => decide (c.uri ≠ uri)

/-- Adds the columns of one definition. A table defined twice in a file keeps the last one. -/
def addSymbol (uri : String) (r : ColumnRegistry) (s : SymbolDef) : ColumnRegistry :=
  if s.kind.hasColumns then
    let earlier := without uri ((r.tables.get? s.name).getD [])
    ⟨r.tables.insert s.name (earlier ++ [⟨uri, (s.columns.map (·.name)).eraseDups⟩])⟩
  else r

def addFile (r : ColumnRegistry) (uri : String) (symbols : List SymbolDef) : ColumnRegistry :=
  symbols.foldl (addSymbol uri) r

def removeFile (r : ColumnRegistry) (uri : String) : ColumnRegistry :=
  ⟨⟨r.tables.entries.filterMap fun e =>
    let rest := without uri e.2
    if rest.isEmpty then none else some (e.1, rest)⟩⟩

/-- The columns of a table by its latest definition. -/
def columns? (r : ColumnRegistry) (table : Name) : Option (List Name) :=
  ((r.tables.get? table).bind (·.getLast?)).map (·.columns)

def hasColumn (r : ColumnRegistry) (table column : Name) : Bool :=
  (r.columns? table).any (·.contains column)

def tablesWith (r : ColumnRegistry) (column : Name) : List Name :=
  NameSet.ofList (r.tables.keys.filter fun t => r.hasColumn t column)

def size (r : ColumnRegistry) : Nat := r.tables.size

end ColumnRegistry

end SqlAtlas
