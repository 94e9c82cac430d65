import SqlAtlas.Node.Lowering

/-!
# Where named queries are visible

A named query hides the table of its name in the queries that see it. Which ones do is said by marking
the tables of a statement: a table whose name a query bears that is visible there is marked like the
call of a function, and those never stand for tables. Lowering sees to the marks by itself.
-/

namespace SqlAtlas.Grammar

set_option autoImplicit false

/-- Where the named queries of a list are visible, besides the queries behind them in the list and the
query that the list stands in front of. -/
structure Visibility where
  /-- In its own query. -/
  own : Bool
  /-- In an insertion or an update that the list stands in front of. -/
  change : Bool
deriving DecidableEq, Repr

namespace Visibility

/-- The scope of named queries in lowered statements. -/
def lowered : Visibility := ⟨false, false⟩

/-- The scope of named queries in the language. -/
def declared : Visibility := ⟨true, true⟩

end Visibility

mutual

def Expr.mark (rule : Visibility) (visible : List (List Char)) : Expr → Expr
  | .column path => .column path
  | .constant => .constant
  | .equation left right => .equation (left.mark rule visible) (right.mark rule visible)
  | .call operands => .call (markExprs rule visible operands)
  | .access root chain => .access (root.mark rule visible) (markExprs rule visible chain)
  | .compound operands => .compound (markExprs rule visible operands)
  | .subquery query => .subquery (query.mark rule visible)

def markExprs (rule : Visibility) (visible : List (List Char)) : List Expr → List Expr
  | [] => []
  | e :: es => e.mark rule visible :: markExprs rule visible es

/-- A query with its tables marked; its body sees all its named queries. -/
def Query.mark (rule : Visibility) (visible : List (List Char)) : Query → Query
  | .mk named body order =>
    .mk (markCtes rule visible named) (body.mark rule (visible ++ named.map Cte.key))
      (markExprs rule (visible ++ named.map Cte.key) order)

/-- Named queries with their tables marked, each of which sees those before it. -/
def markCtes (rule : Visibility) (visible : List (List Char)) : List Cte → List Cte
  | [] => []
  | .mk name query :: rest =>
    .mk name (query.mark rule (if rule.own then visible ++ [Text.lower name.value] else visible)) ::
      markCtes rule (visible ++ [Text.lower name.value]) rest

def Body.mark (rule : Visibility) (visible : List (List Char)) : Body → Body
  | .select sources operands others =>
    .select (markJoineds rule visible sources) (markExprs rule visible operands)
      (markExprs rule visible others)
  | .query query => .query (query.mark rule visible)
  | .combine left right => .combine (left.mark rule visible) (right.mark rule visible)
  | .change statement => .change (statement.mark rule (if rule.change then visible else []))
  | .rows values => .rows (markExprs rule visible values)

/-- A table, marked if its name is that of a visible query. -/
def Factor.mark (rule : Visibility) (visible : List (List Char)) : Factor → Factor
  | .table name label called operands =>
    .table name label (called || visible.contains (Text.lower (dotted name)))
      (markExprs rule visible operands)
  | .derived query label => .derived (query.mark rule visible) label
  | .group tables => .group (tables.mark rule visible)
  | .made inner operands => .made (markFactors rule visible inner) (markExprs rule visible operands)

def markFactors (rule : Visibility) (visible : List (List Char)) : List Factor → List Factor
  | [] => []
  | f :: fs => f.mark rule visible :: markFactors rule visible fs

def Joined.mark (rule : Visibility) (visible : List (List Char)) : Joined → Joined
  | .mk first joins => .mk (first.mark rule visible) (markJoins rule visible joins)

def markJoins (rule : Visibility) (visible : List (List Char)) : List Join → List Join
  | [] => []
  | .mk factor conditions :: rest =>
    .mk (factor.mark rule visible) (markExprs rule visible conditions) :: markJoins rule visible rest

def markJoineds (rule : Visibility) (visible : List (List Char)) : List Joined → List Joined
  | [] => []
  | j :: js => j.mark rule visible :: markJoineds rule visible js

def Statement.mark (rule : Visibility) (visible : List (List Char)) : Statement → Statement
  | .query query => .query (query.mark rule visible)
  | .insert target columns source => .insert target columns (markSource rule visible source)
  | .update table values sources operands targets =>
    .update (table.mark rule visible) (markExprs rule visible values) (markJoineds rule visible sources)
      (markExprs rule visible operands) targets
  | .delete targets sources operands =>
    .delete targets (markJoineds rule visible sources) (markExprs rule visible operands)
  | .other => .other

def markSource (rule : Visibility) (visible : List (List Char)) : Option Query → Option Query
  | none => none
  | some query => some (query.mark rule visible)

end

/-! ### Marked tables -/

theorem tableNode_mark (ctes : List (List Char)) (name : List Ident) (label : Option Ident)
    (called : Bool) : tableNode ctes name label (called || ctes.contains (Text.lower (dotted name))) =
      tableNode ctes name label called := by
  simp only [tableNode, Bool.or_assoc, Bool.or_self]

/-- A named table is lowered to a subquery if it is called or a visible query bears its name. -/
theorem kind_tableNode_iff {ctes : List (List Char)} {name : List Ident} {label : Option Ident}
    {called : Bool} : (tableNode ctes name label called).kind = .subquery ↔
      called = true ∨ Text.lower (dotted name) ∈ ctes := by
  rw [tableNode]
  split
  · rename_i h
    simpa [Node.kind] using h
  · rename_i h
    simpa [Node.kind] using h

theorem key_mark (rule : Visibility) (visible : List (List Char)) (named : List Cte) :
    (markCtes rule visible named).map Cte.key = named.map Cte.key := by
  induction named generalizing visible with
  | nil => rfl
  | cons c named ih =>
    obtain ⟨name, query⟩ := c
    rw [markCtes, List.map_cons, List.map_cons, ih, Cte.key, Cte.key]

/-! ### Marked statements -/

mutual

theorem Expr.level_mark (ctes : List (List Char)) :
    ∀ e : Expr, (e.mark .lowered ctes).level ctes = e.level ctes
  | .column _ => rfl
  | .constant => rfl
  | .equation left right => by
    rw [Expr.mark, Expr.level, Expr.level, left.level_mark ctes, right.level_mark ctes]
  | .call operands => by rw [Expr.mark, Expr.level, Expr.level, exprsLevel_mark ctes operands]
  | .access root chain => by
    rw [Expr.mark, Expr.level, Expr.level, root.level_mark ctes, exprsLevel_mark ctes chain]
  | .compound operands => by rw [Expr.mark, Expr.level, Expr.level, exprsLevel_mark ctes operands]
  | .subquery query => by rw [Expr.mark, Expr.level, Expr.level, query.nodes_mark ctes]

theorem exprsLevel_mark (ctes : List (List Char)) :
    ∀ es : List Expr, exprsLevel ctes (markExprs .lowered ctes es) = exprsLevel ctes es
  | [] => rfl
  | e :: es => by rw [markExprs, exprsLevel, exprsLevel, e.level_mark ctes, exprsLevel_mark ctes es]

theorem Query.nodes_mark (ctes : List (List Char)) :
    ∀ q : Query, (q.mark .lowered ctes).nodes ctes = q.nodes ctes
  | .mk named body _ => by
    rw [Query.mark, Query.nodes, Query.nodes, key_mark, ctesNodes_mark ctes named,
      body.nodes_mark (ctes ++ named.map Cte.key)]

theorem ctesNodes_mark (ctes : List (List Char)) :
    ∀ named : List Cte, ctesNodes ctes (markCtes .lowered ctes named) = ctesNodes ctes named
  | [] => rfl
  | .mk name query :: rest => by
    rw [markCtes, ctesNodes, ctesNodes, ctesNodes_mark (ctes ++ [Text.lower name.value]) rest]
    -- a named query is not visible in itself
    exact congrArg (Node.subquery (some name.value) · :: _) (query.nodes_mark ctes)

theorem Body.nodes_mark (ctes : List (List Char)) :
    ∀ b : Body, (b.mark .lowered ctes).nodes ctes = b.nodes ctes
  | .select sources operands _ => by
    rw [Body.mark, Body.nodes, Body.nodes, joinedsLevel_mark ctes sources, exprsLevel_mark ctes operands]
  | .query query => by rw [Body.mark, Body.nodes, Body.nodes, query.nodes_mark ctes]
  | .combine left right => by
    rw [Body.mark, Body.nodes, Body.nodes, left.nodes_mark ctes, right.nodes_mark ctes]
  | .change statement => by
    rw [Body.mark, Body.nodes, Body.nodes]
    -- no named query is visible in a change
    exact statement.nodes_mark
  | .rows _ => rfl

theorem Factor.level_mark (ctes : List (List Char)) :
    ∀ f : Factor, (f.mark .lowered ctes).level ctes = f.level ctes
  | .table _ _ _ operands => by
    rw [Factor.mark, Factor.level, Factor.level, tableNode_mark, exprsLevel_mark ctes operands]
  | .derived query _ => by rw [Factor.mark, Factor.level, Factor.level, query.nodes_mark ctes]
  | .group tables => by rw [Factor.mark, Factor.level, Factor.level, tables.level_mark ctes]
  | .made inner operands => by
    rw [Factor.mark, Factor.level, Factor.level, factorsLevel_mark ctes inner,
      exprsLevel_mark ctes operands]

theorem factorsLevel_mark (ctes : List (List Char)) :
    ∀ fs : List Factor, factorsLevel ctes (markFactors .lowered ctes fs) = factorsLevel ctes fs
  | [] => rfl
  | f :: fs => by
    rw [markFactors, factorsLevel, factorsLevel, f.level_mark ctes, factorsLevel_mark ctes fs]

theorem Joined.level_mark (ctes : List (List Char)) :
    ∀ j : Joined, (j.mark .lowered ctes).level ctes = j.level ctes
  | .mk first joins => by
    rw [Joined.mark, Joined.level, Joined.level, first.level_mark ctes, joinsLevel_mark ctes joins]

theorem joinsLevel_mark (ctes : List (List Char)) :
    ∀ js : List Join, joinsLevel ctes (markJoins .lowered ctes js) = joinsLevel ctes js
  | [] => rfl
  | .mk factor conditions :: rest => by
    rw [markJoins, joinsLevel, joinsLevel, factor.level_mark ctes, exprsLevel_mark ctes conditions,
      joinsLevel_mark ctes rest]

theorem joinedsLevel_mark (ctes : List (List Char)) :
    ∀ js : List Joined, joinedsLevel ctes (markJoineds .lowered ctes js) = joinedsLevel ctes js
  | [] => rfl
  | j :: js => by
    rw [markJoineds, joinedsLevel, joinedsLevel, j.level_mark ctes, joinedsLevel_mark ctes js]

theorem Statement.nodes_mark : ∀ s : Statement, (s.mark .lowered []).nodes = s.nodes
  | .query query => by rw [Statement.mark, Statement.nodes, Statement.nodes, query.nodes_mark []]
  | .insert _ _ source => by
    rw [Statement.mark, Statement.nodes, Statement.nodes, sourceNodes_mark source]
  | .update table values sources operands _ => by
    rw [Statement.mark, Statement.nodes, Statement.nodes, table.level_mark [], exprsLevel_mark [] values,
      joinedsLevel_mark [] sources, exprsLevel_mark [] operands]
  | .delete _ sources operands => by
    rw [Statement.mark, Statement.nodes, Statement.nodes, joinedsLevel_mark [] sources,
      exprsLevel_mark [] operands]
  | .other => rfl

theorem sourceNodes_mark :
    ∀ source : Option Query, sourceNodes (markSource .lowered [] source) = sourceNodes source
  | none => rfl
  | some query => by rw [markSource, sourceNodes, sourceNodes, query.nodes_mark []]

end

/-- A table of a statement, at whatever depth, that bears the name of a visible query is lowered as if it
were called, and that is to a subquery. Visible are the queries before it in a list, and those of the
lists in front of the queries around it, up to the nearest insertion or update. -/
theorem visible_queries_hide_tables (s : Statement) (ctes : List (List Char)) (name : List Ident)
    (label : Option Ident) (called : Bool) : s.nodes = (s.mark .lowered []).nodes ∧
      ((tableNode ctes name label called).kind = .subquery ↔
        called = true ∨ Text.lower (dotted name) ∈ ctes) :=
  ⟨s.nodes_mark.symm, kind_tableNode_iff⟩

/-- A query that reads itself, and an insertion behind a list of named queries, read a table instead of
the query. -/
theorem declared_queries_leave_tables :
    let texts := ["WITH r AS (SELECT 1 AS n UNION ALL SELECT n FROM r) SELECT n FROM r",
      "WITH c AS (SELECT Id FROM Orders) INSERT INTO t (Id) SELECT Id FROM c"]
    let statements (text : String) := (statementsOf? .tsql text.toList).getD []
    ∀ text ∈ texts, (statements text).flatMap Statement.nodes ≠
      (statements text).flatMap fun s => (s.mark .declared []).nodes := by
  intro texts statements
  -- trees are told apart by what the queries below their top nodes read
  let kinds (tree : Tree) : List (List NodeKind) :=
    tree.map fun n => (n.parts.flatMap Node.sources).map Node.kind
  have hkinds : ∀ text ∈ texts, kinds ((statements text).flatMap Statement.nodes) ≠
      kinds ((statements text).flatMap fun s => (s.mark .declared []).nodes) := by
    decide +kernel
  exact fun text htext hsame => hkinds text htext (congrArg kinds hsame)

end SqlAtlas.Grammar
