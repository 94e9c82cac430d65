import SqlAtlas.Name

/-!
# Statement trees

What a parsed statement says about tables and columns: one node for each query level, with the
tables it reads, the columns it names itself and the queries below it.
-/

namespace SqlAtlas

set_option autoImplicit false

/-- A table of a statement, with its alias as written. -/
structure TableRef where
  name : Name
  label : Option (List Char) := none
deriving DecidableEq, Repr, Inhabited

/-- A column of a statement; `qualifier` is what stands before its last dot, as written. -/
structure ColumnRef where
  qualifier : Option (List Char) := none
  name : Name
deriving DecidableEq, Repr, Inhabited

/-- A node of a statement tree. -/
inductive Node where
  | select (sources : List Node) (columns : List ColumnRef) (nested : List Node)
  | update (target : TableRef) (sources : List Node) (columns : List ColumnRef)
      (nested : List Node)
  | delete (target : TableRef) (sources : List Node) (columns : List ColumnRef)
      (nested : List Node)
  | insert (target : TableRef) (columns : List ColumnRef) (source : List Node)
  | table (table : TableRef)
  | column (column : ColumnRef)
  /-- A derived table, a named query, a table function or a query in an expression. -/
  | subquery (label : Option (List Char)) (body : List Node)
deriving Repr, Inhabited

inductive NodeKind where
  | select
  | update
  | insert
  | delete
  | table
  | column
  | subquery
deriving DecidableEq, Repr

abbrev Tree := List Node

namespace Node

def kind : Node → NodeKind
  | .select .. => .select
  | .update .. => .update
  | .insert .. => .insert
  | .delete .. => .delete
  | .table _ => .table
  | .column _ => .column
  | .subquery .. => .subquery

def target? : Node → Option TableRef
  | .update t .. | .insert t .. | .delete t .. => some t
  | _ => none

def sources : Node → List Node
  | .select ss _ _ | .update _ ss _ _ | .delete _ ss _ _ => ss
  | _ => []

def columns : Node → List ColumnRef
  | .select _ cs _ | .update _ _ cs _ | .delete _ _ cs _ | .insert _ cs _ => cs
  | _ => []

def parts : Node → List Node
  | .select ss _ ns | .update _ ss _ ns | .delete _ ss _ ns => ss ++ ns
  | .insert _ _ ss => ss
  | .subquery _ body => body
  | .table _ | .column _ => []

/-- What a node below another one adds to the queries there: the body of a subquery, a query
itself, and nothing for a table or a column. -/
def opened : Node → List Node
  | .subquery _ body => body
  | .table _ | .column _ => []
  | n => [n]

def children (n : Node) : List Node := n.parts.flatMap opened

end Node

end SqlAtlas
