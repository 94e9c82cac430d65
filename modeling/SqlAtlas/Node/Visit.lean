import SqlAtlas.Node.Lowering

/-!
# Visits

What a visitor of a query comes to, in order: the queries that it enters and leaves, the tables, and the
paths of columns. It comes to every clause at every depth, also to those that lowering passes over. A
collector gathers the level of one query from the visits alone: it counts the queries that it is inside
of, and skips the query of a derived table, which is lowered with the table.
-/

namespace SqlAtlas.Grammar

set_option autoImplicit false

inductive Visit where
  | enter (query : Query)
  | leave
  | factor (factor : Factor)
  /-- The path of a column; `home` is the node of the innermost query around it, none if the path stands
  in a clause that lowering passes over. -/
  | column (home : Option Node) (path : List Ident)
  /-- A change of a table in place of a query, with its nodes. -/
  | change (nodes : List Node)

namespace Visit

/-- A visit in a clause that lowering passes over. -/
def pass : Visit → Visit
  | .column _ path => .column none path
  | .change _ => .change []
  | v => v

def isChange : Visit → Bool
  | .change _ => true
  | _ => false

end Visit

def selectNode (ctes : List (List Char)) (sources : List Joined) (operands : List Expr) : Node :=
  let level := joinedsLevel ctes sources ++ exprsLevel ctes operands
  .select level.sources level.columns level.nested

mutual

/-- The visits of an expression. Here and below `ctes` are the named queries that are visible, and `home`
is the node of the query around. -/
def Expr.visits (ctes : List (List Char)) (home : Option Node) : Expr → List Visit
  | .column path => [.column home path]
  | .constant => []
  | .equation left right => left.visits ctes home ++ right.visits ctes home
  | .call operands => exprsVisits ctes home operands
  | .access root chain => root.visits ctes home ++ exprsVisits ctes home chain
  | .compound operands => exprsVisits ctes home operands
  | .subquery query => query.visits ctes

def exprsVisits (ctes : List (List Char)) (home : Option Node) : List Expr → List Visit
  | [] => []
  | e :: es => e.visits ctes home ++ exprsVisits ctes home es

/-- The visits of a query. Lowering passes over the clauses after the body. -/
def Query.visits (ctes : List (List Char)) : Query → List Visit
  | .mk named body order =>
    .enter (.mk named body order) ::
      (ctesVisits ctes named ++ body.visits (ctes ++ named.map Cte.key) ++
        (exprsVisits (ctes ++ named.map Cte.key) none order).map Visit.pass ++ [.leave])

def ctesVisits (ctes : List (List Char)) : List Cte → List Visit
  | [] => []
  | .mk name query :: rest => query.visits ctes ++ ctesVisits (ctes ++ [Text.lower name.value]) rest

/-- The visits of a query's body. Of a `SELECT` lowering reads the sources and `operands`. -/
def Body.visits (ctes : List (List Char)) : Body → List Visit
  | .select sources operands others =>
    joinedsVisits ctes (some (selectNode ctes sources operands)) sources ++
      exprsVisits ctes (some (selectNode ctes sources operands)) operands ++
      (exprsVisits ctes none others).map Visit.pass
  | .query query => query.visits ctes
  | .combine left right => left.visits ctes ++ right.visits ctes
  | .change statement => .change statement.nodes :: statement.visits.map Visit.pass
  | .rows values => (exprsVisits ctes none values).map Visit.pass

def Factor.visits (ctes : List (List Char)) (home : Option Node) : Factor → List Visit
  | .table name label called operands =>
    .factor (.table name label called operands) :: exprsVisits ctes home operands
  | .derived query label => .factor (.derived query label) :: query.visits ctes
  | .group tables => .factor (.group tables) :: tables.visits ctes home
  | .made inner operands =>
    .factor (.made inner operands) :: (factorsVisits ctes home inner ++ exprsVisits ctes home operands)

def factorsVisits (ctes : List (List Char)) (home : Option Node) : List Factor → List Visit
  | [] => []
  | f :: fs => f.visits ctes home ++ factorsVisits ctes home fs

def Joined.visits (ctes : List (List Char)) (home : Option Node) : Joined → List Visit
  | .mk first joins => first.visits ctes home ++ joinsVisits ctes home joins

def joinsVisits (ctes : List (List Char)) (home : Option Node) : List Join → List Visit
  | [] => []
  | .mk factor conditions :: rest =>
    factor.visits ctes home ++ exprsVisits ctes home conditions ++ joinsVisits ctes home rest

def joinedsVisits (ctes : List (List Char)) (home : Option Node) : List Joined → List Visit
  | [] => []
  | j :: js => j.visits ctes home ++ joinedsVisits ctes home js

def Statement.visits : Statement → List Visit
  | .query query => query.visits []
  | .insert _ _ source => sourceVisits source
  | .update table values sources operands _ =>
    table.visits [] none ++ exprsVisits [] none values ++ joinedsVisits [] none sources ++
      exprsVisits [] none operands
  | .delete _ sources operands => joinedsVisits [] none sources ++ exprsVisits [] none operands
  | .other => []

def sourceVisits : Option Query → List Visit
  | none => []
  | some query => query.visits []

end

structure Collector where
  /-- How many queries below the level the visitor is inside of. -/
  depth : Nat := 0
  /-- Whether the next query is lowered already. -/
  skip : Bool := false
  level : Level := ⟨[], [], []⟩

namespace Collector

def add (c : Collector) (l : Level) : Collector := { c with level := c.level ++ l }

def visit (ctes : List (List Char)) (c : Collector) : Visit → Collector
  | .enter query =>
    -- the query of a derived table comes right behind it and takes the flag back
    let c' := if c.depth == 0 then
        if c.skip then { c with skip := false }
        else c.add ⟨[], [], [.subquery none (query.nodes ctes)]⟩
      else c
    { c' with depth := c.depth + 1 }
  | .leave => { c with depth := c.depth - 1 }
  | .factor factor =>
    if c.depth > 0 then c
    else match factor with
      | .table name label called _ => c.add ⟨[tableNode ctes name label called], [], []⟩
      | .derived query label =>
        { c.add ⟨[.subquery (label.map (·.value)) (query.nodes ctes)], [], []⟩ with skip := true }
      | _ => c
  | .column _ path => if c.depth > 0 then c else c.add ⟨[], (columnRef? path).toList, []⟩
  | .change _ => c

def collect (ctes : List (List Char)) (visits : List Visit) : Level :=
  (visits.foldl (visit ctes) {}).level

end Collector

end SqlAtlas.Grammar
