import SqlAtlas.NameSet

/-!
# Tables local to a routine

Temporary tables and table variables, with the columns they are known to have.
-/

namespace SqlAtlas

set_option autoImplicit false

structure LocalTables where
  tables : List (Name × NameSet) := []
deriving DecidableEq, Repr, Inhabited

namespace LocalTables

def columns? (l : LocalTables) (table : Name) : Option NameSet := l.tables.lookup table

def add (l : LocalTables) (table : Name) (columns : List Name) : LocalTables :=
  match l.columns? table with
  | some _ =>
    ⟨l.tables.map fun e => if e.1 = table then (e.1, NameSet.insertAll columns e.2) else e⟩
  | none => ⟨l.tables ++ [(table, NameSet.ofList columns)]⟩

def contains (l : LocalTables) (table : Name) : Bool := (l.columns? table).isSome

def hasColumn (l : LocalTables) (table column : Name) : Bool :=
  (l.columns? table).any (·.contains column)

def isEmpty (l : LocalTables) : Bool := l.tables.isEmpty

end LocalTables

end SqlAtlas
