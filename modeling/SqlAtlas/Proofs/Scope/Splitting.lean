import Mathlib.Data.List.Basic
import SqlAtlas.Scope.Statement

/-!
# How tokens fall into statements

A statement starts behind a separator or with a word that begins one, and takes in tokens as long as
they extend it. What the tokens do to it depends on nothing before its first token.
-/

namespace SqlAtlas.Statement

set_option autoImplicit false

/-! ### The open statement -/

theorem frame_absorb? {p q : Pending} {word : String} (h : absorb? p word = some q) :
    q.reversed = p.reversed ∧ q.depth = p.depth := by
  rw [absorb?] at h
  split at h
  · cases h
    exact ⟨rfl, rfl⟩
  split at h
  · cases h
    exact ⟨rfl, rfl⟩
  split at h
  · cases h
    exact ⟨rfl, rfl⟩
  split at h
  · cases h
    exact ⟨rfl, rfl⟩
  split at h
  · cases h
    exact ⟨rfl, rfl⟩
  · cases h

theorem frame_continue? {p q : Pending} {prev : Option Lexeme} {w : List Char} {rest : List Lexeme}
    (h : continue? p prev w rest = some q) : q.reversed = p.reversed ∧ q.depth = p.depth := by
  rw [continue?] at h
  split at h
  · cases h
    exact ⟨rfl, rfl⟩
  split at h
  · cases h
    exact ⟨rfl, rfl⟩
  split at h
  · cases h
    exact ⟨rfl, rfl⟩
  split at h
  · cases h
    exact ⟨rfl, rfl⟩
  · exact frame_absorb? h

theorem frame_advance {p q : Pending} {prev : Option Lexeme} {l : Lexeme} {rest : List Lexeme}
    (h : advance p prev l rest = some q) : q.reversed = p.reversed ∧ q.depth = p.depth := by
  rw [advance] at h
  split at h
  · cases h
    exact ⟨rfl, rfl⟩
  split at h
  · cases h
    exact ⟨rfl, rfl⟩
  split at h
  · cases h
    exact ⟨rfl, rfl⟩
  · exact frame_continue? h

/-- Whether a token that no parenthesis is open in front of only ends a statement. -/
def Separator (separates : Lexeme → Bool) (l : Lexeme) : Prop :=
  l.token = .semicolon ∨ separates l = true

/-- The open statement with the token `l` in front of `rest`, unless `l` ends it. -/
def Pending.extend? (separates : Lexeme → Bool) (prev : Option Lexeme) (p : Pending) (l : Lexeme)
    (rest : List Lexeme) : Option Pending :=
  if p.depth == 0 && (l.token == .semicolon || separates l) then none
  else if p.depth != 0 then some { p.push l with depth := depthAfter p.depth l.token }
  else (advance { p with depth := depthAfter p.depth l.token } prev l rest).map (·.push l)

section

variable {separates : Lexeme → Bool} {prev : Option Lexeme} {p q : Pending} {l : Lexeme}
  {rest : List Lexeme}

theorem extend?_eq_some (h : p.extend? separates prev l rest = some q) :
    (p.depth = 0 → ¬Separator separates l) ∧ q.reversed = l :: p.reversed ∧
      q.depth = depthAfter p.depth l.token := by
  rw [Pending.extend?] at h
  split at h
  · cases h
  · rename_i hcut
    refine ⟨fun hdepth hsep => hcut ?_, ?_⟩
    · simpa [hdepth, Separator] using hsep
    · split at h
      · cases h
        exact ⟨rfl, rfl⟩
      · obtain ⟨r, hr, rfl⟩ := Option.map_eq_some_iff.mp h
        obtain ⟨hreversed, hdepth⟩ := frame_advance hr
        exact ⟨congrArg (l :: ·) hreversed, hdepth⟩

theorem bareWord?_of_advance (h : advance p prev l rest = none) :
    ∃ w, l.token.bareWord? = some w ∧ Keyword.startsStatement w = true := by
  rw [advance] at h
  split at h
  · cases h
  · rename_i w hw
    refine ⟨w, hw, ?_⟩
    by_contra hstart
    split at h
    · cases h
    split at h
    · cases h
    · rw [continue?, if_pos (by simpa using hstart)] at h
      cases h

/-- A token ends a statement outside parentheses only, as a separator or as a word. -/
theorem extend?_eq_none (h : p.extend? separates prev l rest = none) :
    p.depth = 0 ∧ (Separator separates l ∨
      ∃ w, l.token.bareWord? = some w ∧ Keyword.startsStatement w = true) := by
  rw [Pending.extend?] at h
  split at h
  · rename_i hcut
    rw [Bool.and_eq_true, beq_iff_eq, Bool.or_eq_true, beq_iff_eq] at hcut
    exact ⟨hcut.1, .inl hcut.2⟩
  · split at h
    · cases h
    · rename_i hdepth
      exact ⟨by simpa using hdepth, .inr (bareWord?_of_advance (Option.map_eq_none_iff.mp h))⟩

end

theorem depthAfter_of_bareWord? {t : Token} {w : List Char} (h : t.bareWord? = some w) (depth : Nat) :
    depthAfter depth t = depth := by
  cases t with
  | word => rfl
  | _ => cases h

/-! ### Statements -/

section

variable (separates : Lexeme → Bool)

/-- The tokens `more`, in front of `rest`, extend the open statement one after another. -/
inductive Extends (rest : List Lexeme) : Option Lexeme → Pending → List Lexeme → Pending → Prop
  | done {prev : Option Lexeme} {p : Pending} : Extends rest prev p [] p
  | more {prev : Option Lexeme} {p q r : Pending} {l : Lexeme} {more : List Lexeme}
      (hl : p.extend? separates prev l (more ++ rest) = some q) (hmore : Extends rest (some l) q more r) :
      Extends rest prev p (l :: more) r

def Ends (prev : Option Lexeme) (p : Pending) : List Lexeme → Prop
  | [] => True
  | l :: rest => p.extend? separates prev l rest = none

/-- The statement that starts with `l` and goes on with `more` ends in front of `rest`. -/
structure Whole (l : Lexeme) (more rest : List Lexeme) : Prop where
  first : ¬Separator separates l
  extended : ∃ p prev, Extends separates rest (some l) (.start (depthAfter 0 l.token) l) more p ∧
    Ends separates prev p rest

/-- The statements of a list of tokens, and the separators between them. -/
inductive Splits : List Lexeme → List (List Lexeme) → Prop
  | nil : Splits [] []
  | separator {l : Lexeme} {rest : List Lexeme} {statements : List (List Lexeme)}
      (hl : Separator separates l) (hrest : Splits rest statements) : Splits (l :: rest) statements
  | statement {l : Lexeme} {more rest : List Lexeme} {statements : List (List Lexeme)}
      (hwhole : Whole separates l more rest) (hrest : Splits rest statements) :
      Splits (l :: (more ++ rest)) ((l :: more) :: statements)

end

variable {separates : Lexeme → Bool}

theorem Splits.whole_of_mem {ls s : List Lexeme} {statements : List (List Lexeme)}
    (h : Splits separates ls statements) (hs : s ∈ statements) : ∃ before l more rest,
      s = l :: more ∧ ls = before ++ (l :: more ++ rest) ∧ Whole separates l more rest := by
  induction h with
  | nil => cases hs
  | @separator first _ _ _ _ ih =>
    obtain ⟨before, l, more, rest, rfl, rfl, hwhole⟩ := ih hs
    exact ⟨first :: before, l, more, rest, rfl, rfl, hwhole⟩
  | @statement first others _ _ hwhole _ ih =>
    rcases List.mem_cons.mp hs with rfl | hs
    · exact ⟨[], first, others, _, rfl, rfl, hwhole⟩
    · obtain ⟨before, l, more, rest, rfl, rfl, hlater⟩ := ih hs
      refine ⟨first :: others ++ before, l, more, rest, rfl, ?_, hlater⟩
      simp only [List.cons_append, List.append_assoc]

def depthFrom (depth : Nat) (ls : List Lexeme) : Nat :=
  (ls.map (·.token)).foldl depthAfter depth

theorem depthFrom_append (depth : Nat) (ls ms : List Lexeme) :
    depthFrom depth (ls ++ ms) = depthFrom (depthFrom depth ls) ms := by
  rw [depthFrom, List.map_append, List.foldl_append]
  rfl

theorem Extends.depth_eq {rest more : List Lexeme} {prev : Option Lexeme} {p q : Pending}
    (h : Extends separates rest prev p more q) : q.depth = depthFrom p.depth more := by
  induction h with
  | done => rfl
  | more hl _ ih =>
    rw [ih, (extend?_eq_some hl).2.2]
    rfl

theorem Extends.not_separator {rest more : List Lexeme} {prev : Option Lexeme} {p q : Pending}
    (h : Extends separates rest prev p more q) {before after : List Lexeme} {l : Lexeme}
    (hmore : more = before ++ l :: after) (hdepth : depthFrom p.depth before = 0) :
    ¬Separator separates l := by
  induction h generalizing before with
  | done => simp at hmore
  | @more prev p q r first more hl _ ih =>
    obtain ⟨hfirst, _, hq⟩ := extend?_eq_some hl
    cases before with
    | nil =>
      cases hmore
      exact hfirst hdepth
    | cons _ before =>
      cases hmore
      refine ih rfl ?_
      rw [hq]
      exact hdepth

/-! ### Scans -/

theorem splitFrom_fresh (prev : Option Lexeme) (l : Lexeme) (rest : List Lexeme) :
    splitFrom separates prev {} (l :: rest) =
      if l.token == .semicolon || separates l then splitFrom separates (some l) {} rest
      else splitFrom separates (some l) (.start (depthAfter 0 l.token) l) rest := by
  rw [splitFrom]
  rfl

/-- A scan with an open statement goes on with it, or ends it and starts afresh. -/
theorem splitFrom_open {prev : Option Lexeme} {p : Pending} (hopen : p.reversed ≠ []) (l : Lexeme)
    (rest : List Lexeme) : splitFrom separates prev p (l :: rest) =
      match p.extend? separates prev l rest with
      | some q => splitFrom separates (some l) q rest
      | none => p.reversed.reverse :: splitFrom separates prev {} (l :: rest) := by
  have hfinish : p.finish = [p.reversed.reverse] := if_neg (by simpa using hopen)
  rw [splitFrom_fresh, splitFrom, Pending.extend?]
  by_cases hcut : (p.depth == 0 && (l.token == .semicolon || separates l)) = true
  · have hsep : (l.token == .semicolon || separates l) = true := (Bool.and_eq_true_iff.mp hcut).2
    simp only [if_pos hcut, if_pos hsep, hfinish]
    rfl
  · simp only [if_neg hcut, if_neg (show ¬p.reversed.isEmpty = true by simpa using hopen)]
    by_cases hdepth : (p.depth != 0) = true
    · simp only [if_pos hdepth]
    · have hsep : ¬(l.token == .semicolon || separates l) = true := by
        simp only [bne_iff_ne, not_not] at hdepth
        simpa [hdepth] using hcut
      simp only [if_neg hdepth, if_neg hsep]
      cases hq : advance { p with depth := depthAfter p.depth l.token } prev l rest with
      | some q => rfl
      | none =>
        obtain ⟨w, hw, _⟩ := bareWord?_of_advance hq
        rw [depthAfter_of_bareWord? hw, hfinish]
        rfl

/-- What a scan with an open statement finds: the statement up to where it ends, and those of the
rest. -/
def Resumes (separates : Lexeme → Bool) (prev : Option Lexeme) (p : Pending) (ls : List Lexeme)
    (found : List (List Lexeme)) : Prop :=
  ∃ more rest q last statements, ls = more ++ rest ∧ Extends separates rest prev p more q ∧
    Ends separates last q rest ∧ found = (p.reversed.reverse ++ more) :: statements ∧
      Splits separates rest statements

theorem Resumes.extend {prev : Option Lexeme} {p q : Pending} {l : Lexeme} {rest : List Lexeme}
    {found : List (List Lexeme)} (h : Resumes separates (some l) q rest found)
    (hl : p.extend? separates prev l rest = some q) : Resumes separates prev p (l :: rest) found := by
  obtain ⟨more, rest, r, last, statements, rfl, hmore, hends, rfl, hrest⟩ := h
  refine ⟨l :: more, rest, r, last, statements, rfl, .more hl hmore, hends, ?_, hrest⟩
  rw [(extend?_eq_some hl).2.1, List.reverse_cons, List.append_assoc, List.singleton_append]

theorem Resumes.splits {l : Lexeme} {rest : List Lexeme} {found : List (List Lexeme)}
    (h : Resumes separates (some l) (.start (depthAfter 0 l.token) l) rest found)
    (hl : ¬Separator separates l) : Splits separates (l :: rest) found := by
  obtain ⟨more, rest, q, last, statements, rfl, hmore, hends, rfl, hrest⟩ := h
  exact .statement ⟨hl, q, last, hmore, hends⟩ hrest

theorem splitFrom_cases (ls : List Lexeme) :
    (∀ prev, Splits separates ls (splitFrom separates prev {} ls)) ∧
      ∀ prev p, p.reversed ≠ [] → Resumes separates prev p ls (splitFrom separates prev p ls) := by
  induction ls with
  | nil =>
    refine ⟨fun _ => .nil, fun prev p hopen => ⟨[], [], p, prev, [], rfl, .done, trivial, ?_, .nil⟩⟩
    rw [splitFrom, Pending.finish, if_neg (by simpa using hopen), List.append_nil]
  | cons l rest ih =>
    obtain ⟨hrest, hresumes⟩ := ih
    have hfresh : ∀ prev, Splits separates (l :: rest) (splitFrom separates prev {} (l :: rest)) := by
      intro prev
      rw [splitFrom]
      split
      · rename_i hcut
        refine .separator ?_ (hrest (some l))
        simpa [Separator] using hcut
      · rename_i hcut
        refine (hresumes (some l) _ (List.cons_ne_nil l [])).splits ?_
        simpa [Separator] using hcut
    refine ⟨hfresh, fun prev p hopen => ?_⟩
    rw [splitFrom_open hopen]
    cases hl : p.extend? separates prev l rest with
    | some q =>
      refine (hresumes (some l) q ?_).extend hl
      rw [(extend?_eq_some hl).2.1]
      exact List.cons_ne_nil l _
    | none =>
      refine ⟨[], l :: rest, p, prev, _, rfl, .done, hl, ?_, hfresh prev⟩
      rw [List.append_nil]

theorem splits_split (ls : List Lexeme) : Splits separates ls (split separates ls) :=
  (splitFrom_cases ls).1 none

end SqlAtlas.Statement
