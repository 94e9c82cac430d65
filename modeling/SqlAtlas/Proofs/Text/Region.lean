import SqlAtlas.Text.Region

/-!
# The steps of a scan

What a scan can do with one character, one rule for each way of going on. Literals and the two kinds
of delimited names follow the same rules.
-/

namespace SqlAtlas.Text.Region

set_option autoImplicit false

/-- A region between delimiters, with the role of what stands in it and the character that closes it. -/
inductive Delimited : Region → Role → Char → Prop
  | literal : Delimited .literal .literal '\''
  | quotedName : Delimited .quotedName .name '"'
  | bracketedName : Delimited .bracketedName .name ']'

/-- How a scan in one region reads a character, with the character behind it in sight: the role that
it gives and the region that it goes on in. -/
inductive Steps : Region → Char → Option Char → Role → Region → Prop
  | opensLine : Steps .code '-' (some '-') .comment (.second .comment .lineComment)
  | opensBlock : Steps .code '/' (some '*') .comment (.second .comment (.blockComment 0))
  | opens {inside : Region} {role : Role} {close c : Char} (next : Option Char) :
    Delimited inside role close → opened? c = some inside → Steps .code c next .delimiter inside
  | code {c : Char} {next : Option Char} : ¬(c = '-' ∧ next = some '-') →
    ¬(c = '/' ∧ next = some '*') → opened? c = none → Steps .code c next .code .code
  | line {c : Char} (next : Option Char) : c ≠ '\n' → Steps .lineComment c next .comment .lineComment
  | lineEnds (next : Option Char) : Steps .lineComment '\n' next .comment .code
  | block {c : Char} {next : Option Char} (outer : Nat) : ¬(c = '*' ∧ next = some '/') →
    ¬(c = '/' ∧ next = some '*') → Steps (.blockComment outer) c next .comment (.blockComment outer)
  | nests (outer : Nat) :
    Steps (.blockComment outer) '/' (some '*') .comment (.second .comment (.blockComment (outer + 1)))
  | unnests (outer : Nat) :
    Steps (.blockComment (outer + 1)) '*' (some '/') .comment (.second .comment (.blockComment outer))
  | blockEnds : Steps (.blockComment 0) '*' (some '/') .comment (.second .comment .code)
  | inside {r : Region} {role : Role} {close c : Char} (next : Option Char) :
    Delimited r role close → c ≠ close → Steps r c next role r
  | doubled {r : Region} {role : Role} {close : Char} :
    Delimited r role close → Steps r close (some close) role (.second role r)
  | closes {r : Region} {role : Role} {close : Char} {next : Option Char} :
    Delimited r role close → next ≠ some close → Steps r close next .delimiter .code
  | second (role : Role) (after : Region) (c : Char) (next : Option Char) :
    Steps (.second role after) c next role after

theorem delimited_of_opened? {c : Char} {inside : Region} (h : opened? c = some inside) :
    ∃ role close, Delimited inside role close := by
  unfold opened? at h
  split at h
  · cases h
    exact ⟨_, _, .literal⟩
  · split at h
    · cases h
      exact ⟨_, _, .quotedName⟩
    · split at h
      · cases h
        exact ⟨_, _, .bracketedName⟩
      · cases h

theorem Delimited.step_eq {r : Region} {role : Role} {close : Char} (h : Delimited r role close)
    (c : Char) (next : Option Char) : r.step c next = stepDelimited r role close c next := by
  cases h <;> rfl

theorem Delimited.steps {r : Region} {role : Role} {close : Char} (h : Delimited r role close)
    (c : Char) (next : Option Char) :
    Steps r c next (stepDelimited r role close c next).1 (stepDelimited r role close c next).2 := by
  unfold stepDelimited
  split
  · rename_i hc
    obtain rfl : c = close := by simpa using hc
    split
    · rename_i hnext
      obtain rfl : next = some c := by simpa using hnext
      exact .doubled h
    · rename_i hnext
      exact .closes h (by simpa using hnext)
  · rename_i hc
    exact .inside next h (by simpa using hc)

theorem steps_step (r : Region) (c : Char) (next : Option Char) :
    Steps r c next (r.step c next).1 (r.step c next).2 := by
  cases r with
  | code =>
    simp only [step]
    split
    · rename_i h
      obtain ⟨rfl, rfl⟩ : c = '-' ∧ next = some '-' := by simpa using h
      exact .opensLine
    · rename_i hline
      split
      · rename_i h
        obtain ⟨rfl, rfl⟩ : c = '/' ∧ next = some '*' := by simpa using h
        exact .opensBlock
      · rename_i hblock
        split
        · rename_i inside hinside
          obtain ⟨role, close, hdelimited⟩ := delimited_of_opened? hinside
          exact .opens next hdelimited hinside
        · rename_i hnone
          exact .code (by simpa using hline) (by simpa using hblock) hnone
  | lineComment =>
    simp only [step]
    split
    · rename_i h
      obtain rfl : c = '\n' := by simpa using h
      exact .lineEnds next
    · rename_i h
      exact .line next (by simpa using h)
  | blockComment outer =>
    simp only [step]
    split
    · rename_i h
      obtain ⟨rfl, rfl⟩ : c = '*' ∧ next = some '/' := by simpa using h
      cases outer with
      | zero => exact .blockEnds
      | succ n => exact .unnests n
    · rename_i hclose
      split
      · rename_i h
        obtain ⟨rfl, rfl⟩ : c = '/' ∧ next = some '*' := by simpa using h
        exact .nests outer
      · rename_i hopen
        exact .block outer (by simpa using hclose) (by simpa using hopen)
  | literal => exact Delimited.literal.steps c next
  | quotedName => exact Delimited.quotedName.steps c next
  | bracketedName => exact Delimited.bracketedName.steps c next
  | second role after => exact .second role after c next

theorem Steps.step_eq {r after : Region} {c : Char} {next : Option Char} {role : Role}
    (h : Steps r c next role after) : r.step c next = (role, after) := by
  cases h with
  | opensLine => rfl
  | opensBlock => rfl
  | opens next _ hinside =>
    have hdash : c ≠ '-' := by
      rintro rfl
      cases hinside
    have hslash : c ≠ '/' := by
      rintro rfl
      cases hinside
    simp [step, hdash, hslash, hinside]
  | code hline hblock hnone => simp [step, hline, hblock, hnone]
  | line _ hc => simp [step, hc]
  | lineEnds => rfl
  | block outer hclose hopen => simp [step, hclose, hopen]
  | nests => rfl
  | unnests => rfl
  | blockEnds => rfl
  | inside _ hdelimited hc => simp [hdelimited.step_eq, stepDelimited, hc]
  | doubled hdelimited => simp [hdelimited.step_eq, stepDelimited]
  | closes hdelimited hnext => simp [hdelimited.step_eq, stepDelimited, hnext]
  | second => rfl

theorem Steps.rolesFrom_cons {r after : Region} {c : Char} {role : Role} {cs : List Char}
    (h : Steps r c cs.head? role after) :
    rolesFrom r (c :: cs) = (c, role) :: rolesFrom after cs := by
  simp only [rolesFrom, h.step_eq]

end SqlAtlas.Text.Region
