import SqlAtlas.Proofs.Checked.Access
import SqlAtlas.Text.Block
import SqlAtlas.Text.Mask

/-!
# Regions and blocks, checked

A block comment counts the comments around it, and the count goes down where a comment ends inside
another one. Ranges are trimmed byte by byte.
-/

namespace SqlAtlas.Checked

set_option autoImplicit false

open Text

def step (r : Region) (c : Char) (next : Option Char) : Except Fault (Role × Region) :=
  match r with
  | .blockComment outer =>
    if c == '*' && next == some '/' then
      if outer = 0 then return (.comment, .second .comment .code)
      else do
        let fewer ← sub outer 1
        return (.comment, .second .comment (.blockComment fewer))
    else return r.step c next
  | _ => return r.step c next

def rolesFrom (r : Region) : List Char → Except Fault (List (Char × Role))
  | [] => return []
  | c :: cs => do
    let here ← step r c cs.head?
    let more ← rolesFrom here.2 cs
    return (c, here.1) :: more

def maskCommentsAndLiterals (cs : List Char) : Except Fault (List Char) := do
  let rs ← rolesFrom .code cs
  return rs.flatMap fun p => if p.2 == .comment || p.2 == .literal then blanked p.1 else [p.1]

def codeIn (cs : List Char) (s : Span) : Except Fault (List (Nat × Char)) := do
  let rs ← rolesFrom .code (dropBytes s.start cs)
  return (codeOf s.start rs).takeWhile fun p => decide (p.1 < s.stop)

def trim (cs : List Char) (s : Span) : Except Fault Span :=
  if s.start < min s.stop (size cs) then do
    bytes cs ⟨s.start, min s.stop (size cs)⟩
    return trimSpan cs s
  else return trimSpan cs s

def trimmedPieces (cs : List Char) (pieces : List Span) : Except Fault (List Span) := do
  let trimmed ← pieces.mapM (trim cs)
  return trimmed.filter fun s => !s.isEmpty

def splitTopLevel (cs : List Char) (s : Span) : Except Fault (List Span) := do
  let code ← codeIn cs s
  trimmedPieces cs (cutAt s.start (min s.stop (size cs)) (commasIn 0 code))

def splitOnSemicolons (cs : List Char) : Except Fault (List Span) := do
  let code ← codeIn cs ⟨0, size cs⟩
  trimmedPieces cs (cutAt 0 (size cs) ((code.filter fun p => p.2 == ';').map (·.1)))

def matchingParen (cs : List Char) (start : Nat) : Except Fault (Option Nat) :=
  if charAt? cs start == some '(' then do
    let code ← codeIn cs ⟨start, size cs⟩
    return closingIn 0 code
  else return none

/-! ### The plain scans -/

theorem step_eq (r : Region) (c : Char) (next : Option Char) :
    step r c next = pure (r.step c next) := by
  cases r with
  | blockComment outer =>
    cases outer with
    | zero =>
      simp only [step, Region.step]
      split <;> rfl
    | succ n =>
      rw [step, if_neg (Nat.succ_ne_zero n), sub_of_le (Nat.le_add_left 1 n), pure_bind,
        Nat.add_sub_cancel]
      simp only [Region.step]
      split <;> rfl
  | code | lineComment | literal | quotedName | bracketedName | second => rfl

theorem rolesFrom_eq (r : Region) (cs : List Char) :
    rolesFrom r cs = pure (Text.rolesFrom r cs) := by
  induction cs generalizing r with
  | nil => rfl
  | cons c cs ih => rw [rolesFrom, step_eq, pure_bind, ih, pure_bind, Text.rolesFrom]

theorem maskCommentsAndLiterals_eq (cs : List Char) :
    maskCommentsAndLiterals cs = pure (Text.maskCommentsAndLiterals cs) := by
  rw [maskCommentsAndLiterals, rolesFrom_eq, pure_bind]
  rfl

theorem codeIn_eq (cs : List Char) (s : Span) : codeIn cs s = pure (Text.codeIn cs s) := by
  rw [codeIn, rolesFrom_eq, pure_bind]
  rfl

theorem trim_eq (cs : List Char) (s : Span) : trim cs s = pure (trimSpan cs s) := by
  rw [trim]
  split
  · rename_i hlt
    rw [bytes_of_le (Nat.le_of_lt hlt) (Nat.min_le_right _ _), pure_bind]
  · rfl

theorem trimmedPieces_eq (cs : List Char) (pieces : List Span) :
    trimmedPieces cs pieces = pure (Text.trimmedPieces cs pieces) := by
  rw [trimmedPieces, mapM_pure_of_forall fun s _ => trim_eq cs s, pure_bind, Text.trimmedPieces]

theorem splitTopLevel_eq (cs : List Char) (s : Span) :
    splitTopLevel cs s = pure (Text.splitTopLevel cs s) := by
  rw [splitTopLevel, codeIn_eq, pure_bind, trimmedPieces_eq, Text.splitTopLevel]

theorem splitOnSemicolons_eq (cs : List Char) :
    splitOnSemicolons cs = pure (Text.splitOnSemicolons cs) := by
  rw [splitOnSemicolons, codeIn_eq, pure_bind, trimmedPieces_eq, Text.splitOnSemicolons]

theorem matchingParen_eq (cs : List Char) (start : Nat) :
    matchingParen cs start = pure (matchingParen? cs start) := by
  rw [matchingParen, codeIn_eq, matchingParen?]
  split <;> rfl

end SqlAtlas.Checked
