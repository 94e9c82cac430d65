import SqlAtlas.Settings
import SqlAtlas.Text.Occurs
import SqlAtlas.Uri

/-!
# Which files are indexed

Only files whose name ends in `.sql` and that are small enough are indexed, and of these not the
ones that a fragment or a pattern excludes. An empty fragment has no answer: asking it of a path is
a fault.
-/

namespace SqlAtlas

set_option autoImplicit false

open Text

inductive SkipReason where
  | notSql
  | tooLarge (bytes limit : Nat)
  | excluded (pattern : List Char)
deriving DecidableEq, Repr

inductive FilterFault where
  | emptyFragment
deriving DecidableEq, Repr

structure PathFilter where
  maxBytes : Nat
  fragments : List (List Char)
  globs : List Glob
deriving DecidableEq, Repr

namespace PathFilter

def isSql (uri : List Char) : Bool := endsFolded ".sql".toList uri

/-- The first fragment that occurs in a name. Fragments after it are not asked. -/
def fragment? (uri : List Char) : List (List Char) → Except FilterFault (Option (List Char))
  | [] => .ok none
  | f :: fs =>
    match occursFolded? f uri with
    | none => .error .emptyFragment
    | some true => .ok (some f)
    | some false => fragment? uri fs

def skipReason? (f : PathFilter) (uri : List Char) (bytes : Nat) :
    Except FilterFault (Option SkipReason) :=
  if !isSql uri then .ok (some .notSql)
  else if f.maxBytes < bytes then .ok (some (.tooLarge bytes f.maxBytes))
  else
    match fragment? uri f.fragments with
    | .error e => .error e
    | .ok (some fragment) => .ok (some (.excluded fragment))
    | .ok none =>
      .ok ((f.globs.find? (·.isMatch (pathOfUri uri))).map fun g => .excluded g.text)

end PathFilter

end SqlAtlas
