import SqlAtlas.Node.Lowering

/-!
# Parsers

A parser turns a statement into a tree, refuses it, or crashes and takes its worker with it.
-/

namespace SqlAtlas

set_option autoImplicit false

inductive ParseOutcome where
  | parsed (tree : Tree)
  | refused
  | crashed

def ParseOutcome.tree? : ParseOutcome → Option Tree
  | .parsed t => some t
  | .refused | .crashed => none

def ParseOutcome.isCrash : ParseOutcome → Bool
  | .crashed => true
  | .parsed _ | .refused => false

abbrev Backend := Dialect → List Char → ParseOutcome

/-- The parser of this library, which never crashes. -/
def grammarBackend : Backend := fun d cs =>
  match parseTree? d cs with
  | some t => .parsed t
  | none => .refused

end SqlAtlas
