import SqlAtlas.Proofs.Checked.LocalTable

/-!
# Routines, checked

Headers and batch separators are noted by their indices. A routine is cut out of the tokens between
its header and the next index noted, and what follows its own header is cut out once more.
-/

namespace SqlAtlas.Checked

set_option autoImplicit false

open Routine

def marksFrom (separates : Lexeme → Except Fault Bool) (i : Nat) :
    List Lexeme → Except Fault (List (Nat × Boundary))
  | [] => return []
  | l :: rest => do
    let separated ← separates l
    let more ← marksFrom separates (i + 1) rest
    match boundary? (fun _ => separated) l rest with
    | some b => return (i, b) :: more
    | none => return more

def followsVariable (tokens : List Lexeme) (i : Nat) : Except Fault Bool :=
  if i = 0 then return false
  else do
    let before ← sub i 1
    let l ← get tokens before
    return l.token.isVariable

/-- The parameters among the `n` tokens of a header from the index `i` on, and the index where the
header ends, if it does. -/
def header (tokens : List Lexeme) (depth i : Nat) : Nat → Except Fault (List Variable × Option Nat)
  | 0 => return ([], none)
  | n + 1 => do
    let l ← get tokens i
    let t := l.token
    let d := Statement.depthAfter depth t
    let typed ← followsVariable tokens i
    if d == 0 && ((t.isKeyword "AS" && !typed) || t.isKeyword "RETURNS") then return ([], some i)
    else
      let r ← header tokens d (i + 1) n
      if t.isVariable && decide (d ≤ 1) then return (variableAt l :: r.1, r.2) else return r

def routine (tokens : List Lexeme) (kind : RoutineKind) (lead start stop : Nat) :
    Except Fault Routine := do
  let ls ← sublist tokens start stop
  let toks := ls.map (·.token)
  let name := headerName (toks.drop lead)
  let i := start + (lead + name.2)
  let h ← header tokens 0 i (stop - i)
  let body ← sublist tokens (h.2.getD stop) stop
  let declared := h.1.map (·.name)
  let locals ← localsFrom toks 0 {} toks
  return {
    kind := kind
    name := Name.ofChars (joinWithChar '.' name.1)
    span := spanOf ls
    parameters := h.1
    usages := ((body.filter (·.token.isVariable)).map variableAt).filter fun v =>
      declared.contains v.name
    locals := locals }

/-- The first index behind `start` of a boundary, or the number of tokens. -/
def stopBehind (marks : List (Nat × Boundary)) (length start : Nat) : Nat :=
  ((marks.find? fun m => decide (start < m.1)).map (·.1)).getD length

def routineAt (tokens : List Lexeme) (marks : List (Nat × Boundary)) (m : Nat × Boundary) :
    Except Fault (Option Routine) :=
  match m.2 with
  | .routine kind lead => do
    let r ← routine tokens kind lead m.1 (stopBehind marks tokens.length m.1)
    return some r
  | .other => return none

def routines (separates : Lexeme → Except Fault Bool) (tokens : List Lexeme) :
    Except Fault (List Routine) := do
  let marks ← marksFrom separates 0 tokens
  marks.filterMapM (routineAt tokens marks)

/-! ### Headers -/

theorem followsVariable_eq (before : List Lexeme) (prev : Lexeme) (rest : List Lexeme) :
    followsVariable (before ++ prev :: rest) (before.length + 1) = pure prev.token.isVariable := by
  rw [followsVariable, if_neg (Nat.succ_ne_zero _), sub_of_le (Nat.le_add_left 1 _), pure_bind,
    Nat.add_sub_cancel, get_length, pure_bind]

/-- The header behind the token `prev`. -/
theorem header_eq (before : List Lexeme) (prev : Lexeme) (depth : Nat) (ls after : List Lexeme) :
    ∃ stop, header (before ++ prev :: (ls ++ after)) depth (before.length + 1) ls.length =
        pure ((Routine.header prev.token depth ls).1, stop) ∧
      sublist (before ++ prev :: (ls ++ after)) (stop.getD (before.length + 1 + ls.length))
        (before.length + 1 + ls.length) = pure (Routine.header prev.token depth ls).2 := by
  induction ls generalizing before prev depth with
  | nil =>
    refine ⟨none, rfl, ?_⟩
    have hempty := sublist_append (before ++ [prev]) [] after
    rw [Routine.header]
    simpa using hempty
  | cons l ls ih =>
    have hget : get (before ++ prev :: (l :: ls ++ after)) (before.length + 1) = pure l := by
      have h := get_length (before ++ [prev]) l (ls ++ after)
      simpa using h
    rw [List.length_cons, header, hget, pure_bind, followsVariable_eq, pure_bind, Routine.header]
    simp only
    split
    · refine ⟨some (before.length + 1), rfl, ?_⟩
      have hrest := sublist_append (before ++ [prev]) (l :: ls) after
      simpa using hrest
    · obtain ⟨stop, hheader, hrest⟩ := ih (before ++ [prev]) l (Statement.depthAfter depth l.token)
      have hlength : before.length + 1 + (ls.length + 1) = before.length + 1 + 1 + ls.length := by omega
      simp only [List.append_assoc, List.singleton_append, List.length_append,
        List.length_singleton] at hheader hrest
      refine ⟨stop, ?_, ?_⟩
      · rw [List.cons_append, hheader, pure_bind]
        split <;> rfl
      · rw [hlength, List.cons_append, hrest]
        split <;> rfl

theorem headerBehind_eq (before ls after : List Lexeme) (k : Nat) : ∃ stop,
    header (before ++ (ls ++ after)) 0 (before.length + (k + 1))
        (before.length + ls.length - (before.length + (k + 1))) =
      pure ((Routine.header (((ls.map (·.token))[k]?).getD .comma) 0 (ls.drop (k + 1))).1, stop) ∧
    sublist (before ++ (ls ++ after)) (stop.getD (before.length + ls.length))
        (before.length + ls.length) =
      pure (Routine.header (((ls.map (·.token))[k]?).getD .comma) 0 (ls.drop (k + 1))).2 := by
  rcases Nat.lt_or_ge k ls.length with hlt | hge
  · obtain ⟨init, prev, rest, rfl, rfl⟩ : ∃ init prev rest, ls = init ++ prev :: rest ∧ init.length = k := by
      refine ⟨ls.take k, ls[k], ls.drop (k + 1), ?_, ?_⟩
      · rw [← List.drop_eq_getElem_cons hlt, List.take_append_drop]
      · rw [List.length_take, Nat.min_eq_left (Nat.le_of_lt hlt)]
    obtain ⟨stop, hheader, hbody⟩ := header_eq (before ++ init) prev 0 rest after
    have hstop : before.length + (init ++ prev :: rest).length = before.length + init.length + 1 + rest.length := by
      simp only [List.length_append, List.length_cons]
      omega
    have hsteps : before.length + init.length + 1 + rest.length - (before.length + init.length + 1) =
        rest.length := by omega
    have hrest : (init ++ prev :: rest).drop (init.length + 1) = rest := by simp
    have hprev : (((init ++ prev :: rest).map (·.token))[init.length]?).getD .comma = prev.token := by
      simp
    rw [List.length_append] at hheader hbody
    refine ⟨stop, ?_, ?_⟩
    · rw [hstop, hprev, hrest, ← Nat.add_assoc, hsteps, ← hheader]
      simp
    · rw [hstop, hprev, hrest, ← hbody]
      simp
  · have hsteps : before.length + ls.length - (before.length + (k + 1)) = 0 := by omega
    refine ⟨none, ?_, ?_⟩
    · rw [hsteps, List.drop_eq_nil_of_le (Nat.le_succ_of_le hge)]
      rfl
    · rw [List.drop_eq_nil_of_le (Nat.le_succ_of_le hge), Option.getD_none,
        sublist_of_le (Nat.le_refl _) (by simp), extract_self]
      rfl

/-- A routine is cut out of the tokens around it. -/
theorem routine_eq (kind : RoutineKind) {lead : Nat} (hlead : 1 ≤ lead) (before ls after : List Lexeme) :
    routine (before ++ (ls ++ after)) kind lead before.length (before.length + ls.length) =
      pure (ofSegment kind lead ls) := by
  have hlocals := localsFrom_eq [] {} (ls.map (·.token))
  rw [List.reverse_nil, List.nil_append, List.length_nil] at hlocals
  obtain ⟨k, hk⟩ : ∃ k, lead + (headerName ((ls.map (·.token)).drop lead)).2 = k + 1 :=
    ⟨lead + (headerName ((ls.map (·.token)).drop lead)).2 - 1, by omega⟩
  obtain ⟨stop, hheader, hbody⟩ := headerBehind_eq before ls after k
  rw [routine, sublist_append, pure_bind, ofSegment]
  simp only [hk, Nat.add_sub_cancel, hheader, hbody, hlocals, pure_bind]

/-! ### Boundaries -/

def marks (separates : Lexeme → Bool) (i : Nat) : List Lexeme → List (Nat × Boundary)
  | [] => []
  | l :: rest =>
    match boundary? separates l rest with
    | some b => (i, b) :: marks separates (i + 1) rest
    | none => marks separates (i + 1) rest

section

variable {plain : Lexeme → Bool}

theorem marksFrom_eq {separates : Lexeme → Except Fault Bool} {ls : List Lexeme}
    (hseparates : ∀ l ∈ ls, separates l = pure (plain l)) (i : Nat) :
    marksFrom separates i ls = pure (marks plain i ls) := by
  induction ls generalizing i with
  | nil => rfl
  | cons l ls ih =>
    rw [marksFrom, hseparates l List.mem_cons_self, pure_bind,
      ih (fun l' hl' => hseparates l' (List.mem_cons_of_mem l hl')), pure_bind, marks]
    have hboundary : boundary? (fun _ => plain l) l ls = boundary? plain l ls := rfl
    rw [hboundary]
    split <;> simp [*]

theorem bounds_of_mem_marks {i : Nat} {ls : List Lexeme} {m : Nat × Boundary}
    (h : m ∈ marks plain i ls) : i ≤ m.1 ∧ m.1 < i + ls.length := by
  induction ls generalizing i with
  | nil => cases h
  | cons l ls ih =>
    have hlater : m ∈ marks plain (i + 1) ls → i ≤ m.1 ∧ m.1 < i + (l :: ls).length := by
      intro hm
      have hbounds := ih hm
      rw [List.length_cons]
      omega
    rw [marks] at h
    split at h
    · rcases List.mem_cons.mp h with rfl | h
      · exact ⟨Nat.le_refl _, Nat.lt_add_of_pos_right (Nat.succ_pos _)⟩
      · exact hlater h
    · exact hlater h

/-- The name of a routine does not come first in its header. -/
theorem lead_of_mem_marks {i lead : Nat} {ls : List Lexeme} {kind : RoutineKind} {start : Nat}
    (h : (start, .routine kind lead) ∈ marks plain i ls) : 1 ≤ lead := by
  have hdefinition : ∀ {n toks}, definition? n toks = some (.routine kind lead) → 1 ≤ lead := by
    intro n toks hd
    cases toks with
    | nil => cases hd
    | cons t toks =>
      rw [definition?] at hd
      repeat' split at hd
      all_goals cases hd
      all_goals exact Nat.le_add_left 1 _
  induction ls generalizing i with
  | nil => cases h
  | cons l ls ih =>
    rw [marks] at h
    split at h
    · rename_i b hb
      rcases List.mem_cons.mp h with heq | h
      · cases heq
        rw [boundary?] at hb
        repeat' split at hb
        · cases hb
        · cases hb
        · exact hdefinition hb
        · exact hdefinition hb
        · exact hdefinition hb
      · exact ih h
    · exact ih h

def firstMark (ms : List (Nat × Boundary)) (length : Nat) : Nat := (ms.head?.map (·.1)).getD length

theorem stopBehind_first {ms : List (Nat × Boundary)} {i length : Nat} (b : Boundary)
    (h : ∀ m ∈ ms, i < m.1) : stopBehind ((i, b) :: ms) length i = firstMark ms length := by
  rw [stopBehind, List.find?_cons_of_neg (by simp)]
  cases ms with
  | nil => rfl
  | cons m ms =>
    rw [List.find?_cons_of_pos (by simpa using h m List.mem_cons_self)]
    rfl

theorem stopBehind_cons {ms : List (Nat × Boundary)} {i start length : Nat} (b : Boundary)
    (h : i ≤ start) : stopBehind ((i, b) :: ms) length start = stopBehind ms length start := by
  rw [stopBehind, List.find?_cons_of_neg (by simpa using h), stopBehind]

/-- The segments of a list of tokens are cut out at the indices of its boundaries. -/
theorem segments_eq (before ls : List Lexeme) :
    (segments plain ls).1 = (before ++ ls).extract before.length
        (firstMark (marks plain before.length ls) (before ++ ls).length) ∧
      (segments plain ls).2 = (marks plain before.length ls).map fun m =>
        (m.2, (before ++ ls).extract m.1
          (stopBehind (marks plain before.length ls) (before ++ ls).length m.1)) := by
  induction ls generalizing before with
  | nil =>
    refine ⟨?_, rfl⟩
    rw [marks, firstMark, List.append_nil]
    exact (extract_self before before.length).symm
  | cons l ls ih =>
    obtain ⟨hlead, hmore⟩ := ih (before ++ [l])
    have hshift : before ++ [l] ++ ls = before ++ l :: ls := by simp
    have hlength : (before ++ [l]).length = before.length + 1 := by simp
    rw [hshift, hlength] at hlead hmore
    have hget : (before ++ l :: ls)[before.length]? = some l := by simp
    have hfirst : before.length <
        firstMark (marks plain (before.length + 1) ls) (before ++ l :: ls).length := by
      rw [firstMark]
      cases hms : marks plain (before.length + 1) ls with
      | nil => simp
      | cons m ms =>
        have hbounds := bounds_of_mem_marks (hms ▸ List.mem_cons_self : m ∈ marks plain _ ls)
        exact hbounds.1
    -- the tokens in front of the next boundary
    have hcons := extract_cons hget hfirst
    rw [← hlead] at hcons
    have hsegments : segments plain (l :: ls) = match boundary? plain l ls with
        | some b => ([], (b, l :: (segments plain ls).1) :: (segments plain ls).2)
        | none => (l :: (segments plain ls).1, (segments plain ls).2) := rfl
    rw [hsegments, marks]
    cases boundary? plain l ls with
    | none => exact ⟨hcons.symm, hmore⟩
    | some b =>
      have hlater : ∀ m ∈ marks plain (before.length + 1) ls, before.length < m.1 := fun m hm =>
        (bounds_of_mem_marks hm).1
      refine ⟨(extract_self _ _).symm, ?_⟩
      rw [List.map_cons, stopBehind_first b hlater, hcons, hmore]
      refine congrArg _ (List.map_congr_left fun m hm => ?_)
      rw [stopBehind_cons b (Nat.le_of_lt (hlater m hm))]

theorem stopBehind_bounds {ms : List (Nat × Boundary)} {length start : Nat} (hstart : start ≤ length)
    (hms : ∀ m ∈ ms, m.1 ≤ length) :
    start ≤ stopBehind ms length start ∧ stopBehind ms length start ≤ length := by
  rw [stopBehind]
  cases hfound : ms.find? fun m => decide (start < m.1) with
  | none => exact ⟨hstart, Nat.le_refl _⟩
  | some m =>
    have hlt := List.find?_some hfound
    rw [decide_eq_true_eq] at hlt
    exact ⟨Nat.le_of_lt hlt, hms m (List.mem_of_find?_eq_some hfound)⟩

theorem routines_eq {separates : Lexeme → Except Fault Bool} {tokens : List Lexeme}
    (hseparates : ∀ l ∈ tokens, separates l = pure (plain l)) :
    routines separates tokens = pure (Routine.all plain tokens) := by
  have hsegments := (@segments_eq plain [] tokens).2
  rw [List.nil_append, List.length_nil] at hsegments
  rw [routines, marksFrom_eq hseparates, pure_bind, Routine.all, hsegments, List.filterMap_map]
  apply filterMapM_pure_of_forall
  rintro ⟨start, boundary⟩ hm
  have hbound : ∀ m ∈ marks plain 0 tokens, m.1 ≤ tokens.length := by
    intro m hm
    have hbounds := bounds_of_mem_marks hm
    omega
  obtain ⟨hle, hlength⟩ := stopBehind_bounds (hbound _ hm) hbound
  cases boundary with
  | other => rfl
  | routine kind lead =>
    obtain ⟨before, after, hsplit, hbefore, hstop⟩ := extract_split hle hlength
    have hroutine := routine_eq kind (lead_of_mem_marks hm) before
      (tokens.extract start (stopBehind (marks plain 0 tokens) tokens.length start)) after
    rw [← hsplit, hstop, hbefore] at hroutine
    simp only [routineAt, hroutine, pure_bind]
    rfl

end

end SqlAtlas.Checked
