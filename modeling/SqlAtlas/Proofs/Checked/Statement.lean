import SqlAtlas.Proofs.Checked.Access
import SqlAtlas.Proofs.Scope.Splitting
import SqlAtlas.Proofs.Text.Line

/-!
# Statements, checked

A statement is kept as the index of its first token, and cut out of the tokens when it ends. Whether
a word goes on with the open statement depends on the token before it, which is there since the open
statement holds at least one.
-/

namespace SqlAtlas.Checked

set_option autoImplicit false

open Text Statement

def startsLine (cs : List Char) (offset : Nat) : Except Fault Bool := do
  let before ← sliceTo cs offset
  let line ← slice cs ⟨size (before.reverse.dropWhile (· != '\n')).reverse, offset⟩
  return line.all isBlank

def isBatchSeparator (cs : List Char) (l : Lexeme) : Except Fault Bool :=
  if l.token.isKeyword "GO" then startsLine cs l.span.start else return false

def close (start : Option Nat) (stop : Nat) : List (Nat × Nat) :=
  match start with
  | some s => if s < stop then [(s, stop)] else []
  | none => []

def advance (tokens : List Lexeme) (p : Pending) (i : Nat) (l : Lexeme) (rest : List Lexeme) :
    Except Fault (Option Pending) :=
  match l.token.bareWord? with
  | none => return some p
  | some w =>
    if Keyword.isWord "CASE" w then return some { p with caseDepth := p.caseDepth + 1 }
    else if Keyword.isWord "END" w && p.caseDepth != 0 then do
      let depth ← sub p.caseDepth 1
      return some { p with caseDepth := depth }
    else do
      let before ← sub i 1
      let prev ← get tokens before
      return continue? p (some prev) w rest

/-- Whether the token `l` outside parentheses only ends a statement. -/
def isSeparator (separates : Lexeme → Except Fault Bool) (depth : Nat) (l : Lexeme) :
    Except Fault Bool :=
  if depth != 0 then return false
  else if l.token == .semicolon then return true
  else separates l

/-- Cuts the tokens from the index `i` on into statements, given as ranges of indices. -/
def splitFrom (separates : Lexeme → Except Fault Bool) (tokens : List Lexeme) (start : Option Nat)
    (p : Pending) (i : Nat) : List Lexeme → Except Fault (List (Nat × Nat))
  | [] => return close start i
  | l :: rest => do
    if ← isSeparator separates p.depth l then
      let more ← splitFrom separates tokens none {} (i + 1) rest
      return close start i ++ more
    else
      let depth := depthAfter p.depth l.token
      if start.isNone then splitFrom separates tokens (some i) (.start depth l) (i + 1) rest
      else if p.depth != 0 then
        splitFrom separates tokens start { p.push l with depth := depth } (i + 1) rest
      else
        match ← advance tokens { p with depth := depth } i l rest with
        | some q => splitFrom separates tokens start (q.push l) (i + 1) rest
        | none =>
          let more ← splitFrom separates tokens (some i) (.start 0 l) (i + 1) rest
          return close start i ++ more

def split (separates : Lexeme → Except Fault Bool) (tokens : List Lexeme) :
    Except Fault (List (Nat × Nat)) :=
  splitFrom separates tokens none {} 0 tokens

/-! ### Batch separators -/

theorem startsLine_eq {cs : List Char} {offset : Nat} (h : IsBoundary cs offset) :
    startsLine cs offset = pure (Statement.startsLine cs offset) := by
  rw [startsLine, sliceTo_boundary h, pure_bind, Statement.startsLine]
  obtain ⟨l, r, rfl, rfl⟩ := h
  rw [takeBytes_size_append]
  have hsplit : (l.reverse.dropWhile (· != '\n')).reverse ++ lastLine l = l := by
    rw [lastLine, ← List.reverse_append, List.takeWhile_append_dropWhile, List.reverse_reverse]
  have hpiece : IsPiece (l ++ r) ⟨size (l.reverse.dropWhile (· != '\n')).reverse, size l⟩ (lastLine l) := by
    refine ⟨_, r, by rw [← List.append_assoc, hsplit], ?_⟩
    rw [← size_append, hsplit]
  rw [slice_piece hpiece, pure_bind, lastLine, List.all_reverse]

theorem isBatchSeparator_eq {cs : List Char} {l : Lexeme} (h : IsBoundary cs l.span.start) :
    isBatchSeparator cs l = pure (Statement.isBatchSeparator cs l) := by
  rw [isBatchSeparator, Statement.isBatchSeparator, startsLine_eq h]
  cases l.token.isKeyword "GO" <;> rfl

/-! ### Open statements -/

/-- The tokens of an open statement stand from the index of the first on. -/
def Opens (tokens : List Lexeme) (start : Option Nat) (p : Pending) (i : Nat) : Prop :=
  match start with
  | none => p.reversed = []
  | some s => s < i ∧ p.reversed.reverse = tokens.extract s i

section

variable {tokens : List Lexeme} {p : Pending} {i : Nat} {l : Lexeme}

theorem Opens.ne_nil {s : Nat} (h : Opens tokens (some s) p i) (hi : i ≤ tokens.length) :
    p.reversed ≠ [] := by
  obtain ⟨hlt, htokens⟩ := h
  intro hempty
  have hlength := congrArg List.length htokens
  rw [hempty, List.extract_eq_take_drop] at hlength
  simp at hlength
  omega

/-- What is cut out of the tokens when a statement ends. -/
theorem Opens.close {start : Option Nat} (h : Opens tokens start p i) (hi : i ≤ tokens.length) :
    (∀ r ∈ close start i, r.1 < r.2 ∧ r.2 ≤ tokens.length) ∧
      (close start i).map (fun r => tokens.extract r.1 r.2) = p.finish := by
  cases start with
  | none =>
    have hempty : p.reversed = [] := h
    simp [Checked.close, Pending.finish, hempty]
  | some s =>
    obtain ⟨hlt, htokens⟩ := h
    have hfull := Opens.ne_nil (s := s) ⟨hlt, htokens⟩ hi
    simp [Checked.close, Pending.finish, hfull, htokens, hlt, hi]

theorem Opens.first (hl : tokens[i]? = some l) (depth : Nat) :
    Opens tokens (some i) (.start depth l) (i + 1) := by
  refine ⟨Nat.lt_succ_self i, ?_⟩
  rw [extract_succ (Nat.le_refl i) hl, extract_self]
  rfl

theorem Opens.push {s : Nat} (h : Opens tokens (some s) p i) (hl : tokens[i]? = some l) :
    Opens tokens (some s) (p.push l) (i + 1) := by
  obtain ⟨hlt, htokens⟩ := h
  refine ⟨Nat.lt_succ_of_lt hlt, ?_⟩
  rw [extract_succ (Nat.le_of_lt hlt) hl, ← htokens, Pending.push, List.reverse_cons]

end

/-! ### Words that go on with a statement -/

/-- The token before is there whenever a statement is open. -/
theorem advance_eq {before : List Lexeme} (hopen : before ≠ []) (p : Pending) (l : Lexeme)
    (rest : List Lexeme) : advance (before ++ l :: rest) p before.length l rest =
      pure (Statement.advance p before.getLast? l rest) := by
  rw [advance, Statement.advance]
  cases l.token.bareWord? with
  | none => rfl
  | some w =>
    simp only
    by_cases hcase : Keyword.isWord "CASE" w = true
    · rw [if_pos hcase, if_pos hcase]
    by_cases hend : (Keyword.isWord "END" w && p.caseDepth != 0) = true
    · have hdepth : 1 ≤ p.caseDepth := by
        simp only [Bool.and_eq_true, bne_iff_ne] at hend
        omega
      rw [if_neg hcase, if_neg hcase, if_pos hend, if_pos hend, sub_of_le hdepth]
      rfl
    · obtain ⟨init, prev, rfl⟩ : ∃ init prev, before = init ++ [prev] := by
        rcases List.eq_nil_or_concat before with hnil | ⟨init, prev, h⟩
        · exact absurd hnil hopen
        · exact ⟨init, prev, by rw [h, List.concat_eq_append]⟩
      have hprev : (init ++ [prev] ++ l :: rest)[init.length]? = some prev := by simp
      rw [if_neg hcase, if_neg hcase, if_neg hend, if_neg hend, List.length_append,
        List.length_singleton, sub_of_le (Nat.le_add_left 1 _), pure_bind, Nat.add_sub_cancel,
        get_of_eq hprev, pure_bind, List.getLast?_concat]

/-! ### Statements -/

variable {separates : Lexeme → Except Fault Bool} {plain : Lexeme → Bool}

theorem isSeparator_eq {l : Lexeme} (h : separates l = pure (plain l)) (depth : Nat) :
    isSeparator separates depth l = pure (depth == 0 && (l.token == .semicolon || plain l)) := by
  rw [isSeparator, h]
  cases depth with
  | zero => cases l.token == .semicolon <;> rfl
  | succ depth => rfl

/-- The ranges of a scan that goes on behind some tokens cut the statements out of all tokens. -/
theorem splitFrom_eq (before rest : List Lexeme) (start : Option Nat) (p : Pending)
    (hseparates : ∀ l ∈ rest, separates l = pure (plain l))
    (hopen : Opens (before ++ rest) start p before.length) : ∃ ranges,
      splitFrom separates (before ++ rest) start p before.length rest = pure ranges ∧
      (∀ r ∈ ranges, r.1 < r.2 ∧ r.2 ≤ (before ++ rest).length) ∧
      ranges.map (fun r => (before ++ rest).extract r.1 r.2) =
        Statement.splitFrom plain before.getLast? p rest := by
  induction rest generalizing before start p with
  | nil =>
    obtain ⟨hbounds, hranges⟩ := hopen.close (by simp)
    exact ⟨_, rfl, hbounds, hranges⟩
  | cons l rest ih =>
    have hl : (before ++ l :: rest)[before.length]? = some l := by simp
    have hsep := hseparates l List.mem_cons_self
    have hgo : ∀ start p, Opens (before ++ l :: rest) start p (before.length + 1) → ∃ ranges,
        splitFrom separates (before ++ l :: rest) start p (before.length + 1) rest = pure ranges ∧
        (∀ r ∈ ranges, r.1 < r.2 ∧ r.2 ≤ (before ++ l :: rest).length) ∧
        ranges.map (fun r => (before ++ l :: rest).extract r.1 r.2) =
          Statement.splitFrom plain (some l) p rest := by
      intro start p h
      have hshift : before ++ l :: rest = (before ++ [l]) ++ rest := by simp
      have hnext : before.length + 1 = (before ++ [l]).length := by simp
      rw [hshift, hnext] at h ⊢
      have hlater := ih (before ++ [l]) start p (fun l' hl' => hseparates l' (List.mem_cons_of_mem l hl')) h
      rwa [List.getLast?_concat] at hlater
    -- the open statement ends in front of the token
    have hend : ∀ start' p', Opens (before ++ l :: rest) start' p' (before.length + 1) → ∃ ranges,
        (do
          let more ← splitFrom separates (before ++ l :: rest) start' p' (before.length + 1) rest
          return close start before.length ++ more) = (pure ranges : Except Fault _) ∧
        (∀ r ∈ ranges, r.1 < r.2 ∧ r.2 ≤ (before ++ l :: rest).length) ∧
        ranges.map (fun r => (before ++ l :: rest).extract r.1 r.2) =
          p.finish ++ Statement.splitFrom plain (some l) p' rest := by
      intro start' p' h
      obtain ⟨more, hmore, hbounds, hranges⟩ := hgo start' p' h
      obtain ⟨hfirst, hfinish⟩ := hopen.close (by simp)
      refine ⟨close start before.length ++ more, by rw [hmore, pure_bind], ?_, ?_⟩
      · intro r hr
        rcases List.mem_append.mp hr with hr | hr
        · exact hfirst r hr
        · exact hbounds r hr
      · rw [List.map_append, hfinish, hranges]
    rw [splitFrom, Statement.splitFrom, isSeparator_eq hsep, pure_bind]
    by_cases hcut : (p.depth == 0 && (l.token == .semicolon || plain l)) = true
    · rw [if_pos hcut, if_pos hcut]
      exact hend none {} rfl
    rw [if_neg hcut, if_neg hcut]
    cases start with
    | none =>
      have hempty : p.reversed.isEmpty = true := by
        have hnil : p.reversed = [] := hopen
        rw [hnil]
        rfl
      simp only [Option.isNone_none, if_true, hempty]
      exact hgo _ _ (Opens.first hl _)
    | some s =>
      have hbefore : before ≠ [] := by
        rintro rfl
        exact absurd hopen.1 (Nat.not_lt_zero s)
      have hfull : p.reversed.isEmpty = false := by
        rw [List.isEmpty_eq_false_iff]
        exact Opens.ne_nil hopen (by simp)
      simp only [Option.isNone_some, hfull, Bool.false_eq_true, if_false]
      split
      · exact hgo _ _ (hopen.push hl)
      · rw [advance_eq hbefore, pure_bind]
        cases hq : Statement.advance { p with depth := depthAfter p.depth l.token } before.getLast? l rest with
        | none => exact hend _ _ (Opens.first hl 0)
        | some q =>
          have hkept : Opens (before ++ l :: rest) (some s) q before.length := by
            refine ⟨hopen.1, ?_⟩
            rw [(frame_advance hq).1]
            exact hopen.2
          exact hgo _ _ (hkept.push hl)

theorem split_eq {tokens : List Lexeme} (hseparates : ∀ l ∈ tokens, separates l = pure (plain l)) :
    ∃ ranges, split separates tokens = pure ranges ∧
      (∀ r ∈ ranges, r.1 < r.2 ∧ r.2 ≤ tokens.length) ∧
      ranges.map (fun r => tokens.extract r.1 r.2) = Statement.split plain tokens :=
  splitFrom_eq [] tokens none {} hseparates rfl

end SqlAtlas.Checked
