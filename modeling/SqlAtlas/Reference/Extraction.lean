import SqlAtlas.Reference.Usage

/-!
# Extraction of references

The emissions of a file become its references: nameless and repeated ones are left out, and the
first reference beyond the limit ends the extraction. Ambiguities stay only where a reference does.
-/

namespace SqlAtlas

namespace Extraction

set_option autoImplicit false

open Usage

def step (limit : Nat) (x : Extraction) : Emission → Extraction
  | .reference r =>
    if x.truncated || r.name.isEmpty then x
    else if limit ≤ x.references.length then { x with truncated := true }
    else if x.references.contains r then x
    else { x with references := x.references ++ [r] }
  | .ambiguity a => if x.truncated then x else { x with ambiguities := x.ambiguities ++ [a] }

/-- Leaves out the ambiguities of a truncated extraction where no reference stands. -/
def settle (x : Extraction) : Extraction :=
  if x.truncated then
    { x with ambiguities := x.ambiguities.filter fun a => x.references.any (·.place = a.place) }
  else x

def ofEmissions (limit : Nat) (es : List Emission) : Extraction :=
  settle (es.foldl (step limit) {})

end Extraction

def extractReferences (uri : String) (cs : List Char) (scopes : FileScopes) (catalog : Catalog)
    (limit : Nat) : Extraction :=
  Extraction.ofEmissions limit (Usage.emissions (.ofText uri cs scopes) catalog)

end SqlAtlas
