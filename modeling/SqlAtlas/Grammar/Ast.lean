import SqlAtlas.Token

/-!
# Statements

What a statement says about tables and columns. Clauses that neither name a table nor hold an
expression leave no trace. Lists of expressions stand in reading order, except that a `CASE` lists
its conditions before its results.
-/

namespace SqlAtlas.Grammar

set_option autoImplicit false

/-- An identifier; `quote` is its opening delimiter if it has one. -/
structure Ident where
  value : List Char
  quote : Option Char
deriving DecidableEq, Repr, Inhabited

mutual

inductive Expr where
  /-- A column, or a variable, with the parts that qualify it. -/
  | column (path : List Ident)
  | constant
  | equation (left right : Expr)
  | call (operands : List Expr)
  /-- A path that starts at an expression which is not a name. -/
  | access (root : Expr) (chain : List Expr)
  | compound (operands : List Expr)
  | subquery (query : Query)

/-- A query; `order` holds the expressions of the clauses after the body. -/
inductive Query where
  | mk (ctes : List Cte) (body : Body) (order : List Expr)

inductive Cte where
  | mk (name : Ident) (query : Query)

inductive Body where
  /-- Sources, then the projection, `WHERE`, `GROUP BY` and `HAVING` in `operands`; the other
  clauses in `others`. -/
  | select (sources : List Joined) (operands others : List Expr)
  | query (query : Query)
  | combine (left right : Body)
  | change (statement : Statement)
  | rows (values : List Expr)

inductive Factor where
  /-- A named table; `called` if arguments follow the name. -/
  | table (name : List Ident) (label : Option Ident) (called : Bool) (operands : List Expr)
  | derived (query : Query) (label : Option Ident)
  | group (tables : Joined)
  /-- A table made from an inner one, or from expressions alone. -/
  | made (inner : List Factor) (operands : List Expr)

inductive Joined where
  | mk (first : Factor) (joins : List Join)

inductive Join where
  | mk (factor : Factor) (conditions : List Expr)

inductive Statement where
  | query (query : Query)
  | insert (target : List Ident) (columns : List Ident) (source : Option Query)
  | update (table : Joined) (values : List Expr) (sources : List Joined) (operands : List Expr)
      (targets : List (List Ident))
  | delete (targets : List (List Ident)) (sources : List Joined) (operands : List Expr)
  /-- A statement that reads or writes no column this library follows. -/
  | other

end

instance : Inhabited Expr := ⟨.constant⟩

instance : Inhabited Statement := ⟨.other⟩

def Expr.isName : Expr → Bool
  | .column [_] => true
  | _ => false

def Expr.name? : Expr → Option Ident
  | .column [i] => some i
  | _ => none

end SqlAtlas.Grammar
