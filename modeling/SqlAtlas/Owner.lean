import SqlAtlas.Alias
import SqlAtlas.NameSet
import SqlAtlas.Node

/-!
# Owners of columns

Which table a statement's tree gives a column to, and what that means for the tables that the
column may belong to. A tree is not trusted: an owner outside those tables is turned down.
-/

namespace SqlAtlas

set_option autoImplicit false

inductive Owner where
  | table (name : Name)
  /-- A qualifier that the query level does not bind. -/
  | qualifier (text : List Char)
  | subquery
deriving DecidableEq, Repr, Inhabited

/-- What a query level binds its aliases and table names to; a subquery has no name. The last
binding of a name stands first. -/
abbrev Bindings := List (List Char × Option Name)

namespace Bindings

def bind (b : Bindings) (key : List Char) (target : Option Name) : Bindings := (key, target) :: b

/-- Binds a key unless it is bound. -/
def bindMissing (b : Bindings) (key : List Char) (target : Option Name) : Bindings :=
  if (b.lookup key).isSome then b else b.bind key target

/-- Adds what one source binds: its alias, and a table's names where they are free. -/
def addSource (b : Bindings) : Node → Bindings
  | .table t =>
    let named := match t.label with
      | some a => b.bind (Text.lower a) (some t.name)
      | none => b
    (named.bindMissing t.name.unqualified (some t.name)).bindMissing t.name.chars (some t.name)
  | .subquery (some a) _ => b.bind (Text.lower a) none
  | _ => b

def ofSources (sources : List Node) : Bindings := sources.foldl addSource []

def owner (b : Bindings) (qualifier : List Char) : Owner :=
  let bound := match b.lookup (Text.lower qualifier) with
    | some t => some t
    | none => b.lookup (Name.ofChars qualifier).chars
  match bound with
  | some (some name) => .table name
  | some none => .subquery
  | none => .qualifier qualifier

end Bindings

def matchingColumns (column : Name) (columns : List ColumnRef) : List ColumnRef :=
  columns.filter fun r => r.name.unqualified == column.unqualified

/-- The owners that a `SELECT` gives a column to: by the qualifier, or the only table it reads. -/
def selectOwners (column : Name) (sources : List Node) (columns : List ColumnRef) : List Owner :=
  let bindings := Bindings.ofSources sources
  (matchingColumns column columns).filterMap fun r =>
    match r.qualifier, sources with
    | some q, _ => some (bindings.owner q)
    | none, [.table t] => some (.table t.name)
    | none, _ => none

/-- The owner that a change of a table gives a column to: the table, if the column is named. -/
def targetOwners (column : Name) (target : TableRef) (columns : List ColumnRef) : List Owner :=
  if (matchingColumns column columns).isEmpty then [] else [.table target.name]

mutual

def Node.owners (column : Name) : Node → List Owner
  | .select sources columns nested =>
    selectOwners column sources columns ++ nodesOwners column sources ++ nodesOwners column nested
  | .update target sources columns nested =>
    targetOwners column target columns ++ nodesOwners column sources ++ nodesOwners column nested
  | .delete target sources columns nested =>
    targetOwners column target columns ++ nodesOwners column sources ++ nodesOwners column nested
  | .insert target columns source =>
    targetOwners column target columns ++ nodesOwners column source
  | .subquery _ body => nodesOwners column body
  | .table _ => []
  | .column _ => []

def nodesOwners (column : Name) : List Node → List Owner
  | [] => []
  | n :: ns => n.owners column ++ nodesOwners column ns

end

/-- The owners that a tree gives a column to, each once, in the order of their first mention. -/
def columnOwners (tree : Tree) (column : Name) : List Owner :=
  (nodesOwners column tree).eraseDups

inductive Decision where
  | accepted (table : Name)
  | rejected (table : Name)
  | inconclusive
deriving DecidableEq, Repr, Inhabited

/-- The table that an owner is within a statement; subqueries are none. -/
def Owner.table? (aliases : AliasMap) : Owner → Option Name
  | .table name => some name
  | .subquery => none
  | .qualifier q =>
    match aliases.get? q with
    | some (.table name) => some name
    | some .subquery => none
    | none => some (Name.ofChars q)

/-- Accepts an owner that is a candidate, or whose unqualified name only one candidate has. -/
def acceptOwner (owner : Name) (candidates : List Name) : Decision :=
  if candidates.contains owner then .accepted owner
  else match candidates.filter fun c => c.unqualified == owner.unqualified with
    | [only] => .accepted only
    | _ => .rejected owner

/-- Decides which candidate owns a column. Only a single owner decides. -/
def disambiguate (tree : Option Tree) (column : Name) (aliases : AliasMap)
    (candidates : List Name) : Decision :=
  match tree with
  | none => .inconclusive
  | some t =>
    match ((columnOwners t column).filterMap (Owner.table? aliases)).eraseDups with
    | [owner] => acceptOwner owner candidates
    | _ => .inconclusive

end SqlAtlas
