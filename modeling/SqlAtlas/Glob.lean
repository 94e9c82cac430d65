/-!
# Path patterns

`?` stands for any character and `*` for any sequence, slashes included. `**` stands for any number
of whole path components, and must be one itself. A class in brackets lists characters and ranges,
and starts with `!` to exclude them; a closing bracket at its front is an ordinary member.
-/

namespace SqlAtlas

set_option autoImplicit false

inductive ClassMember where
  | single (c : Char)
  | range (first last : Char)
deriving DecidableEq, Repr

inductive GlobToken where
  | char (c : Char)
  | anyChar
  | oneOf (members : List ClassMember)
  | noneOf (members : List ClassMember)
  | anySequence
  | anyComponents
deriving DecidableEq, Repr

inductive GlobFault where
  | tooManyStars
  | partialComponent
  | badClass
deriving DecidableEq, Repr

structure GlobError where
  position : Nat
  fault : GlobFault
deriving DecidableEq, Repr

def GlobFault.message : GlobFault → String
  | .tooManyStars => "wildcards are either regular \x60*\x60 or recursive \x60**\x60"
  | .partialComponent => "recursive wildcards must form a single path component"
  | .badClass => "invalid range pattern"

structure Glob where
  text : List Char
  tokens : List GlobToken
deriving DecidableEq, Repr

namespace Glob

def members : List Char → List ClassMember
  | a :: '-' :: b :: rest => .range a b :: members rest
  | a :: rest => .single a :: members rest
  | [] => []

/-- What stands before the first closing bracket, and what stands after it. -/
def beforeBracket? : List Char → Option (List Char × List Char)
  | [] => none
  | c :: rest =>
    if c = ']' then some ([], rest)
    else (beforeBracket? rest).map fun (inner, after) => (c :: inner, after)

def class? : List Char → Option (GlobToken × List Char)
  | '!' :: c :: rest =>
    (beforeBracket? rest).map fun (inner, after) => (.noneOf (members (c :: inner)), after)
  | '!' :: [] => none
  | c :: rest =>
    (beforeBracket? rest).map fun (inner, after) => (.oneOf (members (c :: inner)), after)
  | [] => none

theorem length_of_beforeBracket? {cs inner after : List Char}
    (h : beforeBracket? cs = some (inner, after)) : after.length < cs.length := by
  induction cs generalizing inner with
  | nil => simp [beforeBracket?] at h
  | cons c cs ih =>
    rw [beforeBracket?] at h
    split at h
    · simp_all
    · obtain ⟨⟨i, a⟩, hi, he⟩ := Option.map_eq_some_iff.1 h
      simp only [Prod.mk.injEq] at he
      have := ih (hi.trans (by rw [he.2]))
      simp only [List.length_cons]
      omega

theorem length_of_class? {cs after : List Char} {t : GlobToken}
    (h : class? cs = some (t, after)) : after.length < cs.length := by
  unfold class? at h
  split at h
  · obtain ⟨⟨i, a⟩, hi, he⟩ := Option.map_eq_some_iff.1 h
    simp only [Prod.mk.injEq] at he
    have := length_of_beforeBracket? (hi.trans (by rw [he.2]))
    simp only [List.length_cons]
    omega
  · simp at h
  · obtain ⟨⟨i, a⟩, hi, he⟩ := Option.map_eq_some_iff.1 h
    simp only [Prod.mk.injEq] at he
    have := length_of_beforeBracket? (hi.trans (by rw [he.2]))
    simp only [List.length_cons]
    omega
  · simp at h

/-- Reads a pattern from a position on, given the character before it. -/
def parse (position : Nat) (before : Option Char) (cs : List Char) :
    Except GlobError (List GlobToken) :=
  match cs with
  | [] => .ok []
  | '?' :: rest => (parse (position + 1) (some '?') rest).map (.anyChar :: ·)
  | '*' :: '*' :: '*' :: _ => .error ⟨position + 2, .tooManyStars⟩
  | '*' :: '*' :: rest =>
    if before.any (· != '/') then .error ⟨position - 1, .partialComponent⟩
    else
      match rest with
      | [] => .ok [.anyComponents]
      | '/' :: rest => (parse (position + 3) (some '/') rest).map (.anyComponents :: ·)
      | _ => .error ⟨position + 2, .partialComponent⟩
  | '*' :: rest => (parse (position + 1) (some '*') rest).map (.anySequence :: ·)
  | '[' :: rest =>
    match h : class? rest with
    | some (t, after) =>
      (parse (position + 1 + (rest.length - after.length)) (some ']') after).map (t :: ·)
    | none => .error ⟨position, .badClass⟩
  | c :: rest => (parse (position + 1) (some c) rest).map (.char c :: ·)
termination_by cs.length
decreasing_by
  all_goals simp only [List.length_cons]
  all_goals try omega
  have := length_of_class? h
  omega

def ofText (cs : List Char) : Except GlobError Glob := (parse 0 none cs).map fun ts => ⟨cs, ts⟩

def covers (c : Char) : ClassMember → Bool
  | .single a => a == c
  | .range a b => decide (a ≤ c) && decide (c ≤ b)

/-- Whether some part of a text after its first characters fits. -/
def anySuffix (p : List Char → Bool) : List Char → Bool
  | [] => p []
  | c :: cs => p (c :: cs) || anySuffix p cs

/-- Whether the text after some slash, or its end, fits. -/
def anyComponentSuffix (p : List Char → Bool) : List Char → Bool
  | [] => p []
  | c :: cs => (c == '/' && p cs) || anyComponentSuffix p cs

def fits : List GlobToken → List Char → Bool
  | [], cs => cs.isEmpty
  | .anySequence :: ts, cs => anySuffix (fits ts) cs
  | .anyComponents :: ts, cs => fits ts cs || anyComponentSuffix (fits ts) cs
  | .char a :: ts, c :: cs => a == c && fits ts cs
  | .anyChar :: ts, _ :: cs => fits ts cs
  | .oneOf ms :: ts, c :: cs => ms.any (covers c) && fits ts cs
  | .noneOf ms :: ts, c :: cs => !ms.any (covers c) && fits ts cs
  | _ :: _, [] => false

def isMatch (g : Glob) (path : List Char) : Bool := fits g.tokens path

end Glob

end SqlAtlas
