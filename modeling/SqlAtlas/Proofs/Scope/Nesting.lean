import SqlAtlas.Proofs.Scope.Alone
import SqlAtlas.Proofs.Scope.Variable

/-!
# Statements and routines nest

Statements and routines are runs of the same tokens, found by two scans. A routine starts and ends at
a definition or at a separator of batches, and so does a statement, except in parentheses or behind a
token that lets it go on. Where no routine starts or ends at such a place, every statement lies within
one routine or apart from all.
-/

namespace SqlAtlas

set_option autoImplicit false

open Text

namespace Statement

variable {separates : Lexeme → Bool}

/-! ### Definitions inside statements -/

theorem absorb?_create (p : Pending) : absorb? p "CREATE" = none := by
  simp [absorb?]

theorem continues_of_extend? {prev : Option Lexeme} {p q : Pending} {l : Lexeme} {rest : List Lexeme}
    (h : p.extend? separates prev l rest = some q) (hdepth : p.depth = 0)
    (hcreate : l.token.isKeyword "CREATE" = true) :
    (prev.any fun m => continuesAfter "CREATE" m.token) = true := by
  obtain ⟨w, hw, hupper⟩ := (Option.any_eq_true _ _).mp hcreate
  have hword : Text.asciiUpper w = "CREATE".toList := beq_iff_eq.mp hupper
  by_contra hprev
  have hadvance : ∀ r : Pending, advance r prev l rest = none := by
    intro r
    have hstart : Keyword.startsStatement w = true := by
      rw [Keyword.startsStatement, Keyword.oneOf, hword]
      decide
    simp [advance, hw, Keyword.isWord, continue?, hstart, hword, hprev, absorb?_create]
  rw [Pending.extend?, hadvance] at h
  split at h
  · cases h
  · rw [if_neg (by simpa using hdepth)] at h
    cases h

/-- A token inside a statement stands in parentheses, or is a definition directly behind a token that
lets the statement go on. -/
def Enclosed (before : List Lexeme) (l : Lexeme) : Prop :=
  depthFrom 0 before ≠ 0 ∨ l.token.isKeyword "CREATE" = true ∧
    (before.getLast?.any fun m => continuesAfter "CREATE" m.token) = true

/-- Outside parentheses, a definition goes on with an open statement only behind such a token. -/
theorem Extends.continues {rest more : List Lexeme} {prev : Lexeme} {p q : Pending}
    (h : Extends separates rest (some prev) p more q) {before after : List Lexeme} {l : Lexeme}
    (hmore : more = before ++ l :: after) (hdepth : depthFrom p.depth before = 0)
    (hcreate : l.token.isKeyword "CREATE" = true) :
    ((prev :: before).getLast?.any fun m => continuesAfter "CREATE" m.token) = true := by
  induction before generalizing prev p more with
  | nil =>
    subst hmore
    cases h with
    | more hl _ => exact continues_of_extend? hl hdepth hcreate
  | cons first before ih =>
    subst hmore
    cases h with
    | more hl hmore =>
      rw [List.getLast?_cons_cons]
      refine ih hmore rfl ?_
      rw [(extend?_eq_some hl).2.2]
      exact hdepth

/-- Separators and definitions inside a statement are enclosed. -/
theorem Whole.enclosed {first : Lexeme} {more rest : List Lexeme} (h : Whole separates first more rest)
    {before after : List Lexeme} {l : Lexeme} (hsplit : first :: more = before ++ l :: after)
    (hne : before ≠ []) (hl : separates l = true ∨ l.token.isKeyword "CREATE" = true) :
    Enclosed before l := by
  by_cases hdepth : depthFrom 0 before = 0
  · rcases hl with hsep | hcreate
    · exact (h.not_separator hsplit ⟨hdepth, .inr hsep⟩).elim
    · obtain ⟨p, last, hextends, _⟩ := h.extended
      obtain ⟨_, before, rfl⟩ := List.exists_cons_of_ne_nil hne
      cases hsplit
      exact .inr ⟨hcreate, hextends.continues rfl hdepth hcreate⟩
  · exact .inl hdepth

end Statement

/-! ### Runs of tokens -/

section

variable {α : Type} {before run after before' run' after' : List α}

/-- A list starts with a run. Another run of it stands behind that one, or within it, or the first one
ends inside the other. -/
theorem first_run_cases (h : run ++ after = before' ++ (run' ++ after')) :
    (∃ between, before' = run ++ between) ∨ (∃ right, run = before' ++ (run' ++ right)) ∨
      ∃ front back, front ≠ [] ∧ back ≠ [] ∧ run' = front ++ back ∧ run = before' ++ front ∧
        after = back ++ after' := by
  rcases List.append_eq_append_iff.mp h with ⟨between, hbetween, _⟩ | ⟨middle, rfl, hrun'⟩
  · exact .inl ⟨between, hbetween⟩
  rcases List.append_eq_append_iff.mp hrun' with ⟨right, rfl, _⟩ | ⟨back, rfl, rfl⟩
  · exact .inr (.inl ⟨right, rfl⟩)
  by_cases hmiddle : middle = []
  · exact .inl ⟨[], by rw [hmiddle, List.append_nil, List.append_nil]⟩
  by_cases hback : back = []
  · exact .inr (.inl ⟨[], by rw [hback, List.append_nil, List.append_nil]⟩)
  · exact .inr (.inr ⟨middle, back, hmiddle, hback, rfl, rfl, rfl⟩)

/-- Two runs of a list stand apart, or the second lies within the first, or the first one ends or
starts inside it. -/
theorem runs_cases (h : before ++ (run ++ after) = before' ++ (run' ++ after')) :
    ((∃ between, before' = before ++ (run ++ between)) ∨
        ∃ between, before = before' ++ (run' ++ between)) ∨
      (∃ left right, run = left ++ (run' ++ right)) ∨
      (∃ left front back, front ≠ [] ∧ back ≠ [] ∧ run' = front ++ back ∧ run = left ++ front ∧
        after = back ++ after') ∨
      ∃ front back, front ≠ [] ∧ back ≠ [] ∧ run' = front ++ back ∧ run ++ after = back ++ after' := by
  obtain ⟨left, rfl, hrun⟩ | ⟨front, hfront, rfl, hrun⟩ :
      (∃ left, before' = before ++ left ∧ run ++ after = left ++ (run' ++ after')) ∨
        ∃ front, front ≠ [] ∧ before = before' ++ front ∧ run' ++ after' = front ++ (run ++ after) := by
    rcases List.append_eq_append_iff.mp h with hbehind | ⟨front, rfl, hrun⟩
    · exact .inl hbehind
    · by_cases hfront : front = []
      · subst hfront
        exact .inl ⟨[], by rw [List.append_nil, List.append_nil], hrun.symm⟩
      · exact .inr ⟨front, hfront, rfl, hrun⟩
  · rcases first_run_cases hrun with ⟨between, rfl⟩ | ⟨right, hwithin⟩ | ⟨front, back, hends⟩
    · exact .inl (.inl ⟨between, rfl⟩)
    · exact .inr (.inl ⟨left, right, hwithin⟩)
    · exact .inr (.inr (.inl ⟨left, front, back, hends⟩))
  · rcases List.append_eq_append_iff.mp hrun with ⟨between, rfl, _⟩ | ⟨back, rfl, hstarts⟩
    · exact .inl (.inr ⟨between, rfl⟩)
    by_cases hback : back = []
    · exact .inl (.inr ⟨[], by rw [hback, List.append_nil, List.append_nil]⟩)
    · exact .inr (.inr (.inr ⟨front, back, hfront, hback, rfl, hstarts⟩))

end

namespace Routine

/-! ### Segments -/

variable {separates : Lexeme → Bool}

def AtBoundary (separates : Lexeme → Bool) : List Lexeme → Prop
  | [] => True
  | l :: rest => (boundary? separates l rest).isSome = true

theorem word_of_boundary? {l : Lexeme} {rest : List Lexeme} (h : (boundary? separates l rest).isSome = true) :
    separates l = true ∨ l.token.isKeyword "CREATE" = true := by
  rw [boundary?] at h
  split at h
  · rename_i hsep
    exact .inl hsep
  split at h
  · cases h
  · rename_i hcreate
    exact .inr (by simpa using hcreate)

/-- The tokens in front of the first boundary. -/
theorem segments_lead (ls : List Lexeme) :
    ∃ rest, ls = (segments separates ls).1 ++ rest ∧ AtBoundary separates rest := by
  induction ls with
  | nil => exact ⟨[], rfl, trivial⟩
  | cons l ls ih =>
    obtain ⟨rest, hls, hrest⟩ := ih
    rw [segments]
    simp only
    split
    · rename_i b hb
      exact ⟨l :: ls, rfl, Option.isSome_iff_exists.mpr ⟨b, hb⟩⟩
    · exact ⟨rest, congrArg (l :: ·) hls, hrest⟩

theorem run_of_mem_segments {ls : List Lexeme} {s : Boundary × List Lexeme}
    (h : s ∈ (segments separates ls).2) : ∃ before rest, ls = before ++ (s.2 ++ rest) ∧ s.2 ≠ [] ∧
      AtBoundary separates (s.2 ++ rest) ∧ AtBoundary separates rest := by
  induction ls with
  | nil => cases h
  | cons l ls ih =>
    rw [segments] at h
    simp only at h
    split at h
    · rename_i b hb
      rcases List.mem_cons.mp h with rfl | h
      · obtain ⟨rest, hls, hrest⟩ := @segments_lead separates ls
        refine ⟨[], rest, congrArg (l :: ·) hls, List.cons_ne_nil _ _, ?_, hrest⟩
        rw [List.cons_append, ← hls]
        exact Option.isSome_iff_exists.mpr ⟨b, hb⟩
      · obtain ⟨before, rest, hls, hsegment⟩ := ih h
        exact ⟨l :: before, rest, congrArg (l :: ·) hls, hsegment⟩
    · obtain ⟨before, rest, hls, hsegment⟩ := ih h
      exact ⟨l :: before, rest, congrArg (l :: ·) hls, hsegment⟩

theorem span_of_segment {s : Boundary × List Lexeme} {r : Routine}
    (h : (match s.1 with
      | .routine kind lead => some (ofSegment kind lead s.2)
      | .other => none) = some r) : r.span = spanOf s.2 := by
  split at h
  · cases h
    rfl
  · cases h

end Routine

namespace Text.Span

def Within (s r : Span) : Prop := r.start ≤ s.start ∧ s.stop ≤ r.stop

def Beside (s r : Span) : Prop := s.stop ≤ r.start ∨ r.stop ≤ s.start

end Text.Span

namespace FileScopes

open Statement

/-! ### Ranges of runs -/

/-- What stands behind some tokens starts where they end or later. -/
theorem Apart.spanOf_le {ls ms run run' : List Lexeme} (h : Apart (ls ++ ms)) (hrun : run ⊆ ls)
    (hne : run ≠ []) (hrun' : run' ⊆ ms) (hne' : run' ≠ []) :
    (Routine.spanOf run).stop ≤ (Routine.spanOf run').start := by
  obtain ⟨_, _, last, hlast, hspan⟩ := exists_spanOf hne
  obtain ⟨first, hfirst, _, _, hspan'⟩ := exists_spanOf hne'
  rw [hspan, hspan']
  exact (List.pairwise_append.mp h.apart).2.2 last (hrun hlast) first (hrun' hfirst)

theorem Apart.spanOf_within {run run' : List Lexeme} (h : Apart run) (hrun' : run' ⊆ run)
    (hne : run' ≠ []) : (Routine.spanOf run').Within (Routine.spanOf run) := by
  obtain ⟨first, hfirst, last, hlast, hspan⟩ := exists_spanOf hne
  rw [hspan]
  exact ⟨(h.within (hrun' hfirst)).1, (h.within (hrun' hlast)).2⟩

/-- A range starts or ends inside a statement: at a separator of batches or at a definition, in
parentheses or behind a token that lets the statement go on. -/
def Crosses (text : List Char) (s r : Span) : Prop :=
  ∃ before l after, tokensIn text s = before ++ l :: after ∧ before ≠ [] ∧
    (isBatchSeparator text l = true ∨ l.token.isKeyword "CREATE" = true) ∧ Enclosed before l ∧
      (r.start = l.span.start ∨ before.getLast?.map (·.span.stop) = some r.stop)

/-- A range that meets a boundary inside a statement crosses it there. -/
theorem crosses_of_boundary {text : List Char} {first : Lexeme} {more behind : List Lexeme}
    (hstatement : first :: more ∈ (cut text).statements)
    (hwhole : Whole (isBatchSeparator text) first more behind) {before after rest : List Lexeme}
    {l : Lexeme} (hsplit : first :: more = before ++ l :: after) (hne : before ≠ [])
    (hboundary : Routine.AtBoundary (isBatchSeparator text) (l :: rest)) {r : Span}
    (hmeets : r.start = l.span.start ∨ before.getLast?.map (·.span.stop) = some r.stop) :
    Crosses text (Routine.spanOf (first :: more)) r := by
  have hword := Routine.word_of_boundary? hboundary
  exact ⟨before, l, after, (tokensIn_spanOf hstatement).trans hsplit, hne, hword,
    hwhole.enclosed hsplit hne hword, hmeets⟩

/-- A statement lies within a segment or apart from it, unless the segment starts or ends inside it. -/
theorem nested_or_crosses {text : List Char} {ls : List Lexeme} (hls : ls ∈ (cut text).statements)
    {s : Routine.Boundary × List Lexeme}
    (hs : s ∈ (Routine.segments (isBatchSeparator text) (cut text).tokens).2) :
    (Routine.spanOf ls).Within (Routine.spanOf s.2) ∨ (Routine.spanOf ls).Beside (Routine.spanOf s.2) ∨
      Crosses text (Routine.spanOf ls) (Routine.spanOf s.2) := by
  obtain ⟨before, rest, hrun, hne, hstart, hstop⟩ := Routine.run_of_mem_segments hs
  obtain ⟨_, _, _, _, hsplits, hstatement, outer, after, hblock⟩ := exists_piece_of_mem_cut hls
  obtain ⟨front, first, more, behind, rfl, rfl, hwhole⟩ := hsplits.whole_of_mem hstatement
  have happart := (ordered_cut text).tokens
  have htwo : before ++ (s.2 ++ rest) = outer ++ front ++ (first :: more ++ (behind ++ after)) := by
    rw [← hrun, ← hblock]
    simp only [List.append_assoc]
  rw [hrun] at happart
  rcases runs_cases htwo with (⟨between, hbefore⟩ | ⟨between, hbefore⟩) | ⟨left, right, hwithin⟩ |
      ⟨left, inside, outside, hinside, houtside, hsplit, hsegment, hrest⟩ |
      ⟨outside, inside, houtside, hinside, hsplit, hsegment⟩
  · -- the segment stands in front of the statement
    rw [htwo, hbefore] at happart
    refine .inr (.inl (.inr (happart.spanOf_le ?_ hne (List.subset_append_left _ _) (List.cons_ne_nil _ _))))
    exact List.subset_append_of_subset_right _ (List.subset_append_left _ _)
  · -- the segment stands behind the statement
    rw [hbefore] at happart
    refine .inr (.inl (.inl (happart.spanOf_le ?_ (List.cons_ne_nil _ _) (List.subset_append_left _ _) hne)))
    exact List.subset_append_of_subset_right _ (List.subset_append_left _ _)
  · refine .inl (Apart.spanOf_within ?_ ?_ (List.cons_ne_nil first more))
    · exact happart.sublist ((List.sublist_append_left _ _).trans (List.sublist_append_right _ _))
    · rw [hwithin]
      exact List.subset_append_of_subset_right _ (List.subset_append_left _ _)
  · -- the segment ends inside the statement, in front of a boundary
    obtain ⟨l, outside, rfl⟩ := List.exists_cons_of_ne_nil houtside
    rw [hrest] at hstop
    refine .inr (.inr (crosses_of_boundary hls hwhole hsplit hinside hstop (.inr ?_)))
    obtain ⟨last, hlast⟩ := Option.ne_none_iff_exists'.mp (mt List.getLast?_eq_none_iff.mp hinside)
    simp [Routine.spanOf, hsegment, List.getLast?_append, hlast]
  · -- the segment starts inside the statement, with a boundary
    obtain ⟨l, inside, rfl⟩ := List.exists_cons_of_ne_nil hinside
    obtain ⟨c, body, hbody⟩ := List.exists_cons_of_ne_nil hne
    rw [hsegment] at hstart
    refine .inr (.inr (crosses_of_boundary hls hwhole hsplit houtside hstart (.inl ?_)))
    rw [hbody, List.cons_append, List.cons_append, List.cons.injEq] at hsegment
    rw [hbody, ← hsegment.1]
    rfl

theorem routines_apart (text : List Char) :
    (ofText text).routines.Pairwise fun r next => r.span.stop ≤ next.span.start := by
  have hsegments : Apart (((Routine.segments (isBatchSeparator text) (cut text).tokens).2.map (·.2)).flatten) :=
    (ordered_cut text).tokens.sublist (Routine.segments_sublist _ _)
  obtain ⟨_, happart⟩ := hsegments.runs <| by
    intro segment hsegment
    obtain ⟨s, hs, rfl⟩ := List.mem_map.mp hsegment
    obtain ⟨_, _, _, hne, _⟩ := Routine.run_of_mem_segments hs
    exact hne
  refine List.pairwise_filterMap.mpr ((List.pairwise_map.mp happart).imp fun hle r hr r' hr' => ?_)
  rw [Routine.span_of_segment hr, Routine.span_of_segment hr']
  exact hle

/-! ### Local tables -/

theorem localsAt_eq {routines : List Routine}
    (hapart : routines.Pairwise fun r next => r.span.stop ≤ next.span.start) {r : Routine}
    (hr : r ∈ routines) {offset : Nat} (hstart : r.span.start ≤ offset) (hstop : offset < r.span.stop) :
    localsAt routines offset = r.locals := by
  obtain ⟨before, after, rfl⟩ := List.append_of_mem hr
  have hbefore : before.find? (fun r => decide (r.span.start ≤ offset) && decide (offset < r.span.stop)) =
      none := by
    rw [List.find?_eq_none]
    intro x hx
    have hle := (List.pairwise_append.mp hapart).2.2 x hx r List.mem_cons_self
    simp only [Bool.and_eq_true, decide_eq_true_eq]
    omega
  rw [localsAt, List.find?_append, hbefore, Option.none_or, List.find?_cons_of_pos (by simp [hstart, hstop])]

theorem localsAt_of_beside {routines : List Routine} {s : Span} (hne : s.start < s.stop)
    (h : ∀ r ∈ routines, s.Beside r.span) : localsAt routines s.start = {} := by
  have hnone : routines.find? (fun r => decide (r.span.start ≤ s.start) && decide (s.start < r.span.stop)) =
      none := by
    rw [List.find?_eq_none]
    intro r hr
    have hbeside := h r hr
    rw [Span.Beside] at hbeside
    simp only [Bool.and_eq_true, decide_eq_true_eq]
    omega
  rw [localsAt, hnone]

/-- A statement keeps to its batch and its routine. -/
structure Nests (text : List Char) (s : StatementScope) : Prop where
  /-- Batches are separated in parentheses only. -/
  batch : ∀ before l after, tokensIn text s.span = before ++ l :: after →
    isBatchSeparator text l = true → depthFrom 0 before ≠ 0
  /-- A routine is around the statement or apart from it, unless it starts or ends inside. -/
  routine : ∀ r ∈ (ofText text).routines,
    s.span.Within r.span ∨ s.span.Beside r.span ∨ Crosses text s.span r.span
  /-- The local tables are those of the only routine around the statement. -/
  locals : (∀ r ∈ (ofText text).routines, ¬Crosses text s.span r.span) →
    (∃ r ∈ (ofText text).routines, s.span.Within r.span ∧
      (∀ other ∈ (ofText text).routines, other ≠ r → s.span.Beside other.span) ∧ s.locals = r.locals) ∨
      (∀ r ∈ (ofText text).routines, s.span.Beside r.span) ∧ s.locals = {}

/-- No statement of a text holds a separator of batches outside parentheses. It lies within a routine or
apart from it, unless the routine starts or ends inside the statement, in parentheses or behind a token
that lets the statement go on. If none does, its local tables are those of the routine it lies in. -/
theorem statement_nests (text : List Char) {s : StatementScope} (hs : s ∈ (ofText text).statements) :
    Nests text s := by
  have hstop := (inOrder_ofText text).nonempty s hs
  have hapart := routines_apart text
  have hlocals : s.locals = localsAt (ofText text).routines s.span.start := by
    obtain ⟨ls, _, rfl⟩ := List.mem_map.mp hs
    rfl
  have hroutine : ∀ r ∈ (ofText text).routines,
      s.span.Within r.span ∨ s.span.Beside r.span ∨ Crosses text s.span r.span := by
    intro r hr
    obtain ⟨ls, hls, rfl⟩ := List.mem_map.mp hs
    obtain ⟨segment, hsegment, hr⟩ := List.mem_filterMap.mp hr
    rw [Routine.span_of_segment hr]
    exact nested_or_crosses hls hsegment
  refine ⟨?_, hroutine, fun hnone => ?_⟩
  · intro before l after hsplit hseparates hdepth
    obtain ⟨ls, hls, rfl⟩ := List.mem_map.mp hs
    simp only [statementScope, tokensIn_spanOf hls] at hsplit
    obtain ⟨_, _, _, _, hsplits, hstatement, _⟩ := exists_piece_of_mem_cut hls
    obtain ⟨_, first, more, _, rfl, _, hwhole⟩ := hsplits.whole_of_mem hstatement
    exact hwhole.not_separator hsplit ⟨hdepth, .inr hseparates⟩
  · by_cases haround : ∃ r ∈ (ofText text).routines, s.span.Within r.span
    · obtain ⟨r, hr, hstart, hend⟩ := haround
      refine .inl ⟨r, hr, ⟨hstart, hend⟩, fun other hother hne => ?_, ?_⟩
      · have : Std.Symm fun r other : Routine => r.span.Beside other.span := ⟨fun _ _ => Or.symm⟩
        have hbeside : (ofText text).routines.Pairwise fun r other => r.span.Beside other.span :=
          hapart.imp Or.inl
        rcases hbeside.forall hr hother hne.symm with hle | hle
        · exact .inl (hend.trans hle)
        · exact .inr (hle.trans hstart)
      · rw [hlocals]
        exact localsAt_eq hapart hr hstart (by omega)
    · have hbeside : ∀ r ∈ (ofText text).routines, s.span.Beside r.span := by
        intro r hr
        rcases hroutine r hr with hwithin | hbeside | hcrosses
        · exact (haround ⟨r, hr, hwithin⟩).elim
        · exact hbeside
        · exact (hnone r hr hcrosses).elim
      exact .inr ⟨hbeside, hlocals.trans (localsAt_of_beside hstop hbeside)⟩

theorem statement_nests_procedure :
    let text := "CREATE PROC p AS SELECT 1 INTO #t\nGO\nPRINT 2".toList
    ∃ s ∈ (ofText text).statements, s.span = ⟨17, 33⟩ ∧
      s.locals.tables.map (·.1) = [Name.ofText "#t"] ∧ Nests text s := by
  intro text
  let s := (ofText text).statements.get ⟨1, by decide +kernel⟩
  have hs : s ∈ (ofText text).statements := List.get_mem _ _
  exact ⟨s, hs, by decide +kernel, by decide +kernel, statement_nests text hs⟩

/-- A column named like the separator starts a line of a parenthesised list: the statement goes on, and
the routine it starts in ends. -/
theorem separator_in_parentheses :
    let text := "CREATE PROC p AS CREATE TABLE #t (\ngo INT)\nSELECT go FROM #t".toList
    ∃ s ∈ (ofText text).statements, (∃ l ∈ tokensIn text s.span, isBatchSeparator text l = true) ∧
      ∃ r ∈ (ofText text).routines, r.span.start ≤ s.span.start ∧ s.span.start < r.span.stop ∧
        r.span.stop < s.span.stop := by
  decide +kernel

end FileScopes

end SqlAtlas
