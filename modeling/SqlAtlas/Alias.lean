import SqlAtlas.Name

/-!
# Aliases

What the names before a dot stand for within a statement: a table, or a subquery whose columns are
not known by name. Aliases are compared in lower case. The first table bound to an alias stays;
a subquery replaces whatever was bound.
-/

namespace SqlAtlas

set_option autoImplicit false

inductive AliasTarget where
  | table (name : Name)
  | subquery
deriving DecidableEq, Repr, Inhabited

structure AliasMap where
  entries : List (List Char × AliasTarget) := []
deriving DecidableEq, Repr, Inhabited

namespace AliasMap

/-- The target of an alias that is already in lower case. -/
def target? (m : AliasMap) (key : List Char) : Option AliasTarget := m.entries.lookup key

def get? (m : AliasMap) (label : List Char) : Option AliasTarget := m.target? (Text.lower label)

def contains (m : AliasMap) (label : List Char) : Bool := (m.get? label).isSome

def bindMissing (m : AliasMap) (key : List Char) (t : AliasTarget) : AliasMap :=
  if (m.target? key).isSome then m else ⟨m.entries ++ [(key, t)]⟩

/-- Binds an alias to a table unless it is bound. -/
def bindTable (m : AliasMap) (label : List Char) (table : Name) : AliasMap :=
  m.bindMissing (Text.lower label) (.table table)

def bindSubquery (m : AliasMap) (label : List Char) : AliasMap :=
  let key := Text.lower label
  ⟨m.entries.filter (fun e => e.1 != key) ++ [(key, .subquery)]⟩

def extendMissing (m other : AliasMap) : AliasMap :=
  other.entries.foldl (fun acc e => acc.bindMissing e.1 e.2) m

/-- Whether an alias is other than the unqualified name of the table it stands for. -/
def isExplicit (m : AliasMap) (label : List Char) : Bool :=
  let key := Text.lower label
  match m.target? key with
  | some (.table t) => t.unqualified != key
  | some .subquery => true
  | none => false

def size (m : AliasMap) : Nat := m.entries.length

end AliasMap

end SqlAtlas
