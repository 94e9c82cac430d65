import SqlAtlas.Grammar.Statement
import SqlAtlas.Node

/-!
# From statements to trees

A query level collects the tables, columns and queries of its own clauses; whatever stands inside a
nested query belongs to that query's node. A table whose name is that of a visible named query is a
reference to that query.
-/

namespace SqlAtlas.Grammar

set_option autoImplicit false

structure Level where
  sources : List Node := []
  columns : List ColumnRef := []
  nested : List Node := []

namespace Level

def append (a b : Level) : Level :=
  ⟨a.sources ++ b.sources, a.columns ++ b.columns, a.nested ++ b.nested⟩

instance : Append Level := ⟨append⟩

end Level

def dotted (path : List Ident) : List Char := joinWithChar '.' (path.map (·.value))

def columnRef? (path : List Ident) : Option ColumnRef :=
  match path.getLast? with
  | none => none
  | some last =>
    if last.value.head? == some '@' then none
    else
      let before := path.dropLast
      some ⟨if before.isEmpty then none else some (dotted before), Name.ofChars last.value⟩

/-- A named table, or a reference to a named query or a table function. -/
def tableNode (ctes : List (List Char)) (name : List Ident) (label : Option Ident)
    (called : Bool) : Node :=
  let raw := dotted name
  if called || ctes.contains (Text.lower raw) then
    .subquery (some ((label.map (·.value)).getD raw)) []
  else .table ⟨Name.ofChars raw, label.map (·.value)⟩

/-- The names of named queries, in lower case. -/
def Cte.key : Cte → List Char
  | .mk name _ => Text.lower name.value

/-- The table of `sources` that a target names: by its alias or by its name. -/
def resolveTarget? (raw : List Char) (sources : List Node) : Option TableRef :=
  let name := Name.ofChars raw
  sources.findSome? fun
    | .table t =>
      if t.label.any (fun a => Text.asciiLower a == Text.asciiLower name.chars) ||
          t.name == name then some t
      else none
    | _ => none

/-- The node of an update: its first source is the target, which may be the alias of another. -/
def updateNodes (level : Level) (targets : List (List Ident)) : List Node :=
  match level.sources with
  | .table first :: sources =>
    let target := (resolveTarget? first.name.chars sources).getD first
    [.update target sources (level.columns ++ targets.filterMap columnRef?) level.nested]
  | _ => []

/-- The node of a deletion: its target is named, or it is the first source. -/
def deleteNodes (targets : List (List Ident)) (level : Level) : List Node :=
  let node (t : TableRef) : Node := .delete t level.sources level.columns level.nested
  match targets with
  | name :: _ =>
    let raw := dotted name
    [node ((resolveTarget? raw level.sources).getD ⟨Name.ofChars raw, none⟩)]
  | [] =>
    match level.sources with
    | .table t :: _ => [node t]
    | _ => []

mutual

def Expr.level (ctes : List (List Char)) : Expr → Level
  | .column path => ⟨[], (columnRef? path).toList, []⟩
  | .constant => ⟨[], [], []⟩
  | .equation left right => left.level ctes ++ right.level ctes
  | .call operands => exprsLevel ctes operands
  | .access root chain => root.level ctes ++ exprsLevel ctes chain
  | .compound operands => exprsLevel ctes operands
  | .subquery query => ⟨[], [], [.subquery none (query.nodes ctes)]⟩

def exprsLevel (ctes : List (List Char)) : List Expr → Level
  | [] => ⟨[], [], []⟩
  | e :: es => e.level ctes ++ exprsLevel ctes es

def Query.nodes (ctes : List (List Char)) : Query → List Node
  | .mk named body _ => ctesNodes ctes named ++ body.nodes (ctes ++ named.map Cte.key)

/-- The nodes of named queries, each of which sees those before it. -/
def ctesNodes (ctes : List (List Char)) : List Cte → List Node
  | [] => []
  | .mk name query :: rest =>
    .subquery (some name.value) (query.nodes ctes) ::
      ctesNodes (ctes ++ [Text.lower name.value]) rest

def Body.nodes (ctes : List (List Char)) : Body → List Node
  | .select sources operands _ =>
    let level := joinedsLevel ctes sources ++ exprsLevel ctes operands
    [.select level.sources level.columns level.nested]
  | .query query => query.nodes ctes
  | .combine left right => left.nodes ctes ++ right.nodes ctes
  | .change statement => statement.nodes
  | .rows _ => []

def Factor.level (ctes : List (List Char)) : Factor → Level
  | .table name label called operands =>
    ⟨[tableNode ctes name label called], [], []⟩ ++ exprsLevel ctes operands
  | .derived query label => ⟨[.subquery (label.map (·.value)) (query.nodes ctes)], [], []⟩
  | .group tables => tables.level ctes
  | .made inner operands => factorsLevel ctes inner ++ exprsLevel ctes operands

def factorsLevel (ctes : List (List Char)) : List Factor → Level
  | [] => ⟨[], [], []⟩
  | f :: fs => f.level ctes ++ factorsLevel ctes fs

def Joined.level (ctes : List (List Char)) : Joined → Level
  | .mk first joins => first.level ctes ++ joinsLevel ctes joins

def joinsLevel (ctes : List (List Char)) : List Join → Level
  | [] => ⟨[], [], []⟩
  | .mk factor conditions :: rest =>
    factor.level ctes ++ exprsLevel ctes conditions ++ joinsLevel ctes rest

def joinedsLevel (ctes : List (List Char)) : List Joined → Level
  | [] => ⟨[], [], []⟩
  | j :: js => j.level ctes ++ joinedsLevel ctes js

def Statement.nodes : Statement → List Node
  | .query query => query.nodes []
  | .insert target columns source =>
    [.insert ⟨Name.ofChars (dotted target), none⟩
      (columns.filterMap fun c => columnRef? [c]) (sourceNodes source)]
  | .update table values sources operands targets =>
    updateNodes
      (table.level [] ++ exprsLevel [] values ++ joinedsLevel [] sources ++
        exprsLevel [] operands) targets
  | .delete targets sources operands =>
    deleteNodes targets (joinedsLevel [] sources ++ exprsLevel [] operands)
  | .other => []

def sourceNodes : Option Query → List Node
  | none => []
  | some query => query.nodes []

end

end SqlAtlas.Grammar

namespace SqlAtlas

/-- The tree of a text; nothing if the dialect does not accept it. -/
def parseTree? (d : Dialect) (text : List Char) : Option Tree :=
  (Grammar.statementsOf? d text).map fun ss => ss.flatMap Grammar.Statement.nodes

end SqlAtlas
