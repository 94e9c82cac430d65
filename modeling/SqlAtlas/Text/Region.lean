import SqlAtlas.Text.Slice

/-!
# Code, comments, literals and delimited names

One pass gives every character of a text its role. Block comments nest; a closing delimiter is
escaped by doubling it.

The depth of a comment has no bound here. Texts whose comments are nested too deep for a count in 32
bits, which takes more than eight gibibytes of opening marks, are not modelled.
-/

namespace SqlAtlas.Text

set_option autoImplicit false

inductive Role where
  /-- Plain code. -/
  | code
  /-- A mark that opens or closes a literal or a delimited name. -/
  | delimiter
  /-- A comment, its marks included. -/
  | comment
  /-- The inside of a string literal. -/
  | literal
  /-- The inside of a delimited name. -/
  | name
deriving DecidableEq, Repr

inductive Region where
  | code
  | lineComment
  /-- A block comment inside `outer` more of them. -/
  | blockComment (outer : Nat)
  | literal
  | quotedName
  | bracketedName
  /-- Before the second character of a two-character mark. -/
  | second (role : Role) (next : Region)
deriving DecidableEq, Repr

/-- The region inside a literal or a delimited name that `c` opens. -/
def Region.opened? (c : Char) : Option Region :=
  if c == '\'' then some .literal
  else if c == '"' then some .quotedName
  else if c == '[' then some .bracketedName
  else none

/-- One character inside a region that `close` ends unless it is doubled. -/
def Region.stepDelimited (inside : Region) (role : Role) (close c : Char) (next : Option Char) :
    Role × Region :=
  if c == close then
    if next == some close then (role, .second role inside) else (.delimiter, .code)
  else (role, inside)

def Region.step (r : Region) (c : Char) (next : Option Char) : Role × Region :=
  match r with
  | .code =>
    if c == '-' && next == some '-' then (.comment, .second .comment .lineComment)
    else if c == '/' && next == some '*' then (.comment, .second .comment (.blockComment 0))
    else match Region.opened? c with
      | some inside => (.delimiter, inside)
      | none => (.code, .code)
  | .lineComment => (.comment, if c == '\n' then .code else .lineComment)
  | .blockComment outer =>
    if c == '*' && next == some '/' then
      match outer with
      | 0 => (.comment, .second .comment .code)
      | n + 1 => (.comment, .second .comment (.blockComment n))
    else if c == '/' && next == some '*' then
      (.comment, .second .comment (.blockComment (outer + 1)))
    else (.comment, .blockComment outer)
  | .literal => Region.stepDelimited .literal .literal '\'' c next
  | .quotedName => Region.stepDelimited .quotedName .name '"' c next
  | .bracketedName => Region.stepDelimited .bracketedName .name ']' c next
  | .second role after => (role, after)

def rolesFrom (r : Region) : List Char → List (Char × Role)
  | [] => []
  | c :: cs =>
    let (role, after) := r.step c cs.head?
    (c, role) :: rolesFrom after cs

def roles (cs : List Char) : List (Char × Role) := rolesFrom .code cs

theorem rolesFrom_map_fst (r : Region) (cs : List Char) : (rolesFrom r cs).map (·.1) = cs := by
  induction cs generalizing r with
  | nil => rfl
  | cons c cs ih => simp [rolesFrom, ih]

def codeOf (offset : Nat) : List (Char × Role) → List (Nat × Char)
  | [] => []
  | (c, role) :: rest =>
    if role = .code then (offset, c) :: codeOf (offset + c.utf8Size) rest
    else codeOf (offset + c.utf8Size) rest

/-- The code characters in a range, the scan starting in plain code at its start. -/
def codeIn (cs : List Char) (s : Span) : List (Nat × Char) :=
  (codeOf s.start (roles (dropBytes s.start cs))).takeWhile fun p => decide (p.1 < s.stop)

end SqlAtlas.Text
