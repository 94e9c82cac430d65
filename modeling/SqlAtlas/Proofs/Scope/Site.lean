import SqlAtlas.Proofs.Checked.Routine
import SqlAtlas.Proofs.Reference.Distinct
import SqlAtlas.Proofs.Scope.Nesting

/-!
# The tokens of a routine

A routine takes up the tokens from its header to the next boundary. Its header is read up to the
first token that ends it; the variables in front of that token declare parameters, and those from
there on use them if they have the name of one.
-/

namespace SqlAtlas

set_option autoImplicit false

open Text Checked

namespace Routine

structure Site where
  routine : Routine
  start : Nat
  /-- The index behind the name. -/
  named : Nat
  /-- The index where the header ends. -/
  body : Nat
  stop : Nat

/-- Whether the token at the index `i` ends a header that is read from the index `named` on. -/
def EndsHeader (tokens : List Lexeme) (named i : Nat) : Prop :=
  ∃ l, tokens[i]? = some l ∧ Statement.depthFrom 0 (tokens.extract named (i + 1)) = 0 ∧
    (l.token.isKeyword "AS" = true ∧ (tokens[i - 1]?.any (·.token.isVariable)) = false ∨
      l.token.isKeyword "RETURNS" = true)

def variablesIn (tokens : List Lexeme) (start stop : Nat) : List (Lexeme × Nat) :=
  (tokens.zipIdx.extract start stop).filter fun p => p.1.token.isVariable

def Site.declaring (s : Site) (tokens : List Lexeme) : List (Lexeme × Nat) :=
  (variablesIn tokens s.named s.body).filter fun p =>
    decide (Statement.depthFrom 0 (tokens.extract s.named (p.2 + 1)) ≤ 1)

def Site.using (s : Site) (tokens : List Lexeme) : List (Lexeme × Nat) :=
  (variablesIn tokens s.body s.stop).filter fun p =>
    (s.routine.parameters.map (·.name)).contains (variableAt p.1).name

structure HeaderRead (tokens : List Lexeme) (named i body stop : Nat)
    (h : List Variable × List Lexeme) : Prop where
  start_le : i ≤ body ∨ body = stop
  le_stop : body ≤ stop
  rest : h.2 = tokens.extract body stop
  before : ∀ j, i ≤ j → j < body → ¬EndsHeader tokens named j
  ends : body < stop → EndsHeader tokens named body
  parameters : h.1 = ((variablesIn tokens i body).filter fun p =>
    decide (Statement.depthFrom 0 (tokens.extract named (p.2 + 1)) ≤ 1)).map fun p => variableAt p.1

theorem variablesIn_self (tokens : List Lexeme) (i : Nat) : variablesIn tokens i i = [] := by
  rw [variablesIn, extract_self]
  rfl

theorem variablesIn_cons {tokens : List Lexeme} {i stop : Nat} {l : Lexeme}
    (hl : tokens[i]? = some l) (hlt : i < stop) : variablesIn tokens i stop =
      if l.token.isVariable then (l, i) :: variablesIn tokens (i + 1) stop
      else variablesIn tokens (i + 1) stop := by
  have hzip : tokens.zipIdx[i]? = some (l, i) := by
    rw [List.getElem?_zipIdx, hl, Nat.zero_add]
    rfl
  rw [variablesIn, extract_cons hzip hlt, List.filter_cons]
  rfl

theorem mem_variablesIn {tokens : List Lexeme} {start stop : Nat} {p : Lexeme × Nat} :
    p ∈ variablesIn tokens start stop ↔
      tokens[p.2]? = some p.1 ∧ start ≤ p.2 ∧ p.2 < stop ∧ p.1.token.isVariable = true := by
  have hextract : p ∈ tokens.zipIdx.extract start stop ↔
      tokens[p.2]? = some p.1 ∧ start ≤ p.2 ∧ p.2 < stop := by
    rw [List.mem_iff_getElem?, List.extract_eq_take_drop]
    constructor
    · rintro ⟨i, hi⟩
      rw [List.getElem?_take, List.getElem?_drop, List.getElem?_zipIdx, Nat.zero_add] at hi
      split at hi
      · obtain ⟨l, hl, rfl⟩ := Option.map_eq_some_iff.mp hi
        refine ⟨hl, ?_, ?_⟩ <;> dsimp only <;> omega
      · cases hi
    · rintro ⟨hp, hle, hlt⟩
      refine ⟨p.2 - start, ?_⟩
      rw [List.getElem?_take_of_lt (by omega), List.getElem?_drop, List.getElem?_zipIdx,
        Nat.add_sub_cancel' hle, hp, Nat.zero_add]
      rfl
  rw [variablesIn, List.mem_filter, hextract, and_assoc, and_assoc]

theorem variablesIn_ascending (tokens : List Lexeme) (start stop : Nat) :
    (variablesIn tokens start stop).Pairwise fun p q => p.2 < q.2 := by
  have hall : tokens.zipIdx.Pairwise fun p q => p.2 < q.2 := by
    rw [← List.pairwise_map (f := Prod.snd), List.zipIdx_map_snd]
    exact List.pairwise_lt_range'
  refine List.Pairwise.sublist ?_ hall
  rw [variablesIn, List.extract_eq_take_drop]
  exact List.filter_sublist.trans ((List.take_sublist _ _).trans (List.drop_sublist _ _))

theorem endsHeader_iff {tokens : List Lexeme} (named : Nat) {i : Nat} {l : Lexeme}
    (hl : tokens[i]? = some l) {prev : Token}
    (hprev : (tokens[i - 1]?.any (·.token.isVariable)) = prev.isVariable) :
    EndsHeader tokens named i ↔ (Statement.depthFrom 0 (tokens.extract named (i + 1)) == 0 &&
      ((l.token.isKeyword "AS" && !prev.isVariable) || l.token.isKeyword "RETURNS")) = true := by
  simp [EndsHeader, hl, hprev]

/-- A header is read up to the first token that ends it, by induction on the tokens that are left. What
was read only counts through the depth and the last token. -/
theorem headerRead {tokens : List Lexeme} (named : Nat) {stop : Nat} (hstop : stop ≤ tokens.length)
    (n : Nat) {i : Nat} {prev : Token} (hn : i + n = stop) (hnamed : named ≤ i) (hi : 1 ≤ i)
    (hprev : (tokens[i - 1]?.any (·.token.isVariable)) = prev.isVariable) :
    ∃ body, HeaderRead tokens named i body stop
      (header prev (Statement.depthFrom 0 (tokens.extract named i)) (tokens.extract i stop)) := by
  induction n generalizing i prev with
  | zero =>
    rw [Nat.add_zero] at hn
    rw [hn, extract_self]
    refine ⟨stop, .inr rfl, Nat.le_refl _, (extract_self _ _).symm, ?_, ?_, ?_⟩
    · omega
    · omega
    · rw [variablesIn_self]
      rfl
  | succ n ih =>
    have hlt : i < stop := by omega
    obtain ⟨l, hl⟩ : ∃ l, tokens[i]? = some l := ⟨_, List.getElem?_eq_getElem (by omega)⟩
    have hdepth : Statement.depthFrom 0 (tokens.extract named (i + 1)) =
        Statement.depthAfter (Statement.depthFrom 0 (tokens.extract named i)) l.token := by
      rw [extract_succ hnamed hl, Statement.depthFrom_append]
      rfl
    have hends := endsHeader_iff named hl hprev
    rw [extract_cons hl hlt, header]
    simp only
    rw [← hdepth]
    split
    · rename_i hcloses
      refine ⟨i, .inl (Nat.le_refl _), by omega, (extract_cons hl hlt).symm, by omega, ?_, ?_⟩
      · exact fun _ => hends.mpr hcloses
      · rw [variablesIn_self]
        rfl
    · rename_i hopen
      have hvariable : (tokens[i + 1 - 1]?.any (·.token.isVariable)) = l.token.isVariable := by
        rw [Nat.add_sub_cancel, hl]
        rfl
      obtain ⟨body, hread⟩ := ih (i := i + 1) (by omega) (by omega) (by omega) hvariable
      have hle : i < body := by
        have hstart := hread.start_le
        omega
      refine ⟨body, .inl (Nat.le_of_lt hle), hread.le_stop, ?_, ?_, hread.ends, ?_⟩
      · rw [← hread.rest]
        split <;> rfl
      · intro j hj hlater
        rcases Nat.eq_or_lt_of_le hj with rfl | hj
        · exact mt hends.mp hopen
        · exact hread.before j hj hlater
      · rw [variablesIn_cons hl hle]
        cases hv : l.token.isVariable with
        | false => exact hread.parameters
        | true =>
          rw [Bool.true_and, if_pos rfl, List.filter_cons]
          split
          · exact congrArg (variableAt l :: ·) hread.parameters
          · exact hread.parameters

/-! ### Sites -/

def site (tokens : List Lexeme) (kind : RoutineKind) (lead start stop : Nat) : Site :=
  let ls := tokens.extract start stop
  let toks := ls.map (·.token)
  let k := lead + (headerName (toks.drop lead)).2
  { routine := ofSegment kind lead ls
    start := start
    named := start + k
    body := stop - (header ((toks[k - 1]?).getD .comma) 0 (ls.drop k)).2.length
    stop := stop }

def sites (separates : Lexeme → Bool) (tokens : List Lexeme) : List Site :=
  let ms := marks separates 0 tokens
  ms.filterMap fun m =>
    match m.2 with
    | .routine kind lead => some (site tokens kind lead m.1 (stopBehind ms tokens.length m.1))
    | .other => none

section

variable (separates : Lexeme → Bool) (tokens : List Lexeme)

theorem all_eq : all separates tokens = (sites separates tokens).map (·.routine) := by
  have hsegments := (@segments_eq separates [] tokens).2
  rw [List.nil_append, List.length_nil] at hsegments
  rw [all, hsegments, sites, List.filterMap_map, List.map_filterMap]
  refine List.filterMap_congr fun m _ => ?_
  obtain ⟨start, boundary⟩ := m
  cases boundary <;> rfl

end

theorem length_extract {tokens : List Lexeme} {start stop : Nat} (hstop : stop ≤ tokens.length) :
    (tokens.extract start stop).length = stop - start := by
  rw [List.extract_eq_take_drop, List.length_take, List.length_drop]
  omega

theorem drop_extract (tokens : List Lexeme) (start stop k : Nat) :
    (tokens.extract start stop).drop k = tokens.extract (start + k) stop := by
  rw [List.extract_eq_take_drop, List.extract_eq_take_drop, List.drop_take, List.drop_drop,
    Nat.sub_sub]

theorem getElem?_extract {tokens : List Lexeme} {start stop i : Nat} (h : start + i < stop) :
    (tokens.extract start stop)[i]? = tokens[start + i]? := by
  rw [List.extract_eq_take_drop, List.getElem?_take_of_lt (by omega), List.getElem?_drop]

theorem header_site {tokens : List Lexeme} (kind : RoutineKind) {lead start stop : Nat}
    (hlead : 1 ≤ lead) (hlt : start < stop) (hstop : stop ≤ tokens.length) :
    ∃ h, HeaderRead tokens (site tokens kind lead start stop).named
        (site tokens kind lead start stop).named (site tokens kind lead start stop).body stop h ∧
      (site tokens kind lead start stop).routine.parameters = h.1 ∧
      (site tokens kind lead start stop).routine.usages =
        ((h.2.filter (·.token.isVariable)).map variableAt).filter fun v =>
          (h.1.map (·.name)).contains v.name := by
  simp only [site, ofSegment]
  generalize hk : lead + (headerName _).2 = k
  generalize hprev : ((((tokens.extract start stop).map (·.token)))[k - 1]?).getD .comma = prev
  have hbody : ∀ {body : Nat} {h : List Variable × List Lexeme}, body ≤ stop →
      h.2 = tokens.extract body stop → stop - h.2.length = body := by
    intro body h hle hrest
    rw [hrest, length_extract hstop]
    omega
  refine ⟨_, ?_, rfl, rfl⟩
  rw [drop_extract]
  by_cases hfits : start + k ≤ stop
  · obtain ⟨l, hl⟩ : ∃ l, tokens[start + k - 1]? = some l := ⟨_, List.getElem?_eq_getElem (by omega)⟩
    have hvariable : (tokens[start + k - 1]?.any (·.token.isVariable)) = prev.isVariable := by
      have hindex : start + k - 1 = start + (k - 1) := by omega
      rw [← hprev, List.getElem?_map, getElem?_extract (by omega), ← hindex, hl]
      rfl
    obtain ⟨body, hread⟩ := headerRead (start + k) hstop (stop - (start + k)) (i := start + k)
      (by omega) (Nat.le_refl _) (by omega) hvariable
    rw [extract_self] at hread
    rw [show Statement.depthFrom 0 [] = 0 from rfl] at hread
    rw [hbody hread.le_stop hread.rest]
    exact hread
  · have hnone : tokens.extract (start + k) stop = [] := by
      rw [List.extract_eq_take_drop, Nat.sub_eq_zero_of_le (by omega), List.take_zero]
    rw [hnone, header, List.length_nil, Nat.sub_zero]
    refine ⟨.inr rfl, Nat.le_refl _, (extract_self _ _).symm, by omega, by omega, ?_⟩
    have hvariables : variablesIn tokens (start + k) stop = [] := by
      rw [variablesIn, List.extract_eq_take_drop, Nat.sub_eq_zero_of_le (by omega), List.take_zero]
      rfl
    rw [hvariables]
    rfl

/-! ### Boundaries -/

theorem mem_marks_cons {separates : Lexeme → Bool} {n : Nat} {l : Lexeme} {tokens : List Lexeme}
    {m : Nat × Boundary} : m ∈ marks separates n (l :: tokens) ↔
      m.1 = n ∧ boundary? separates l tokens = some m.2 ∨ m ∈ marks separates (n + 1) tokens := by
  rw [marks]
  cases boundary? separates l tokens with
  | none => simp
  | some b => simp [Prod.ext_iff, eq_comm (a := b)]

theorem mem_marks {separates : Lexeme → Bool} {n : Nat} {tokens : List Lexeme} {m : Nat × Boundary} :
    m ∈ marks separates n tokens ↔ n ≤ m.1 ∧ ∃ l rest, tokens.drop (m.1 - n) = l :: rest ∧
      boundary? separates l rest = some m.2 := by
  induction tokens generalizing n with
  | nil => simp [marks]
  | cons l tokens ih =>
    rw [mem_marks_cons, ih]
    constructor
    · rintro (⟨hhere, hboundary⟩ | ⟨hlater, hboundary⟩)
      · refine ⟨by omega, l, tokens, ?_, hboundary⟩
        rw [hhere, Nat.sub_self, List.drop_zero]
      · refine ⟨by omega, ?_⟩
        rw [show m.1 - n = m.1 - (n + 1) + 1 by omega, List.drop_succ_cons]
        exact hboundary
    · rintro ⟨hle, hboundary⟩
      rcases Nat.eq_or_lt_of_le hle with hhere | hlater
      · rw [← hhere, Nat.sub_self, List.drop_zero] at hboundary
        obtain ⟨_, _, heq, hboundary⟩ := hboundary
        cases heq
        exact .inl ⟨hhere.symm, hboundary⟩
      · rw [show m.1 - n = m.1 - (n + 1) + 1 by omega, List.drop_succ_cons] at hboundary
        exact .inr ⟨hlater, hboundary⟩

theorem marks_ascending (separates : Lexeme → Bool) (n : Nat) (tokens : List Lexeme) :
    (marks separates n tokens).Pairwise fun m next => m.1 < next.1 := by
  induction tokens generalizing n with
  | nil => exact .nil
  | cons l tokens ih =>
    rw [marks]
    split
    · exact (ih (n + 1)).cons fun m hm => (bounds_of_mem_marks hm).1
    · exact ih (n + 1)

theorem stopBehind_le {ms : List (Nat × Boundary)} {m : Nat × Boundary} {length start : Nat}
    (hms : ms.Pairwise fun m next => m.1 < next.1) (hm : m ∈ ms) (hlt : start < m.1) :
    stopBehind ms length start ≤ m.1 := by
  induction hms with
  | nil => cases hm
  | @cons first ms hfirst _ ih =>
    rw [stopBehind, List.find?_cons]
    split
    · rcases List.mem_cons.mp hm with rfl | hm
      · exact Nat.le_refl _
      · exact Nat.le_of_lt (hfirst m hm)
    · rename_i hbefore
      rcases List.mem_cons.mp hm with rfl | hm
      · rw [decide_eq_false_iff_not] at hbefore
        exact absurd hlt hbefore
      · exact ih hm

theorem stopBehind_cases (ms : List (Nat × Boundary)) (length start : Nat) :
    (∃ m ∈ ms, start < m.1 ∧ stopBehind ms length start = m.1) ∨ stopBehind ms length start = length := by
  rw [stopBehind]
  cases hfound : ms.find? fun m => decide (start < m.1) with
  | none => exact .inr rfl
  | some m =>
    have hlt := List.find?_some hfound
    rw [decide_eq_true_eq] at hlt
    exact .inl ⟨m, List.mem_of_find?_eq_some hfound, hlt, rfl⟩

/-! ### Where routines stand -/

theorem usages_eq (tokens : List Lexeme) (start stop : Nat) (names : List Name) :
    (((tokens.extract start stop).filter (·.token.isVariable)).map variableAt).filter
        (fun v => names.contains v.name) =
      ((variablesIn tokens start stop).filter fun p => names.contains (variableAt p.1).name).map
        fun p => variableAt p.1 := by
  have hfirst : tokens.extract start stop = (tokens.zipIdx.extract start stop).map (·.1) := by
    rw [List.extract_eq_take_drop, List.extract_eq_take_drop, List.map_take, List.map_drop,
      List.zipIdx_map_fst]
  rw [hfirst, variablesIn, List.filter_map, List.filter_map, List.filter_map, List.map_map]
  rfl

structure Stands (separates : Lexeme → Bool) (tokens : List Lexeme) (s : Site) : Prop where
  /-- It starts with its header, and is named behind it. -/
  starts : ∃ l rest lead, tokens.drop s.start = l :: rest ∧
    boundary? separates l rest = some (.routine s.routine.kind lead) ∧ s.named = s.start +
      (lead + (headerName (((tokens.extract s.start s.stop).map (·.token)).drop lead)).2)
  bounds : s.start < s.named ∧ s.start < s.body ∧ s.body ≤ s.stop ∧ s.stop ≤ tokens.length
  /-- It stops at the next boundary, or with the last token. -/
  inside : ∀ i, s.start < i → i < s.stop → ¬AtBoundary separates (tokens.drop i)
  stops : AtBoundary separates (tokens.drop s.stop)
  /-- Its header ends at the first token that ends it, or with the routine. -/
  header : ∀ i, s.named ≤ i → i < s.body → ¬EndsHeader tokens s.named i
  ends : s.body < s.stop → EndsHeader tokens s.named s.body
  /-- Its variables are those of distinct tokens: parameters inside the header, uses behind it. -/
  parameters : s.routine.parameters = (s.declaring tokens).map fun p => variableAt p.1
  usages : s.routine.usages = (s.using tokens).map fun p => variableAt p.1
  apart : (s.declaring tokens ++ s.using tokens).Pairwise fun p q => p.2 < q.2
  declared : ∀ p ∈ s.declaring tokens, tokens[p.2]? = some p.1 ∧ s.start < p.2 ∧ p.2 < s.body
  used : ∀ l i, (l, i) ∈ s.using tokens ↔ tokens[i]? = some l ∧ s.body ≤ i ∧ i < s.stop ∧
    l.token.isVariable = true ∧ ∃ v ∈ s.routine.parameters, v.name = (variableAt l).name

theorem stop_of_mem_marks {separates : Lexeme → Bool} {tokens : List Lexeme} {m : Nat × Boundary}
    (hm : m ∈ marks separates 0 tokens) :
    m.1 < stopBehind (marks separates 0 tokens) tokens.length m.1 ∧
      stopBehind (marks separates 0 tokens) tokens.length m.1 ≤ tokens.length ∧
      AtBoundary separates (tokens.drop (stopBehind (marks separates 0 tokens) tokens.length m.1)) := by
  have hstart := bounds_of_mem_marks hm
  rcases stopBehind_cases (marks separates 0 tokens) tokens.length m.1 with
    ⟨next, hnext, hlt, heq⟩ | heq
  · obtain ⟨_, l, rest, hdrop, hboundary⟩ := mem_marks.mp hnext
    have hbound := bounds_of_mem_marks hnext
    rw [Nat.sub_zero] at hdrop
    rw [heq, hdrop]
    exact ⟨hlt, by omega, Option.isSome_iff_exists.mpr ⟨_, hboundary⟩⟩
  · rw [heq, List.drop_length]
    exact ⟨by omega, Nat.le_refl _, trivial⟩

theorem not_atBoundary {separates : Lexeme → Bool} {tokens : List Lexeme} {start i : Nat}
    (hlt : start < i) (hstop : i < stopBehind (marks separates 0 tokens) tokens.length start)
    (hlength : i < tokens.length) : ¬AtBoundary separates (tokens.drop i) := by
  intro hboundary
  rw [List.drop_eq_getElem_cons hlength] at hboundary
  obtain ⟨b, hb⟩ := Option.isSome_iff_exists.mp hboundary
  have hmark : (i, b) ∈ marks separates 0 tokens :=
    mem_marks.mpr ⟨Nat.zero_le _, _, _, List.drop_eq_getElem_cons hlength, hb⟩
  have hbehind : stopBehind (marks separates 0 tokens) tokens.length start ≤ i :=
    stopBehind_le (marks_ascending separates 0 tokens) hmark hlt
  omega

theorem stands_of_mem_sites {separates : Lexeme → Bool} {tokens : List Lexeme} {s : Site}
    (hs : s ∈ sites separates tokens) : Stands separates tokens s := by
  obtain ⟨⟨start, boundary⟩, hm, hsite⟩ := List.mem_filterMap.mp hs
  cases boundary with
  | other => cases hsite
  | routine kind lead =>
    cases hsite
    obtain ⟨_, l, rest, hdrop, hboundary⟩ := mem_marks.mp hm
    have hlead := lead_of_mem_marks hm
    obtain ⟨hlt, hle, hstops⟩ := stop_of_mem_marks hm
    have hinside := fun i => @not_atBoundary separates tokens start i
    simp only at hlt hle hstops ⊢
    generalize stopBehind (marks separates 0 tokens) tokens.length start = stop at *
    obtain ⟨h, hread, hparameters, husages⟩ := header_site kind hlead hlt hle
    have hnamed : start < (site tokens kind lead start stop).named :=
      Nat.lt_add_of_pos_right (Nat.add_pos_left hlead _)
    have hbody : start < (site tokens kind lead start stop).body := by
      have hstart := hread.start_le
      omega
    constructor
    case starts => exact ⟨l, rest, lead, hdrop, hboundary, rfl⟩
    case bounds => exact ⟨hnamed, hbody, hread.le_stop, hle⟩
    case inside => exact fun i hlo hhi => hinside i hlo hhi (Nat.lt_of_lt_of_le hhi hle)
    case stops => exact hstops
    case header => exact hread.before
    case ends => exact hread.ends
    case parameters => exact hparameters.trans hread.parameters
    case usages =>
      rw [husages, hread.rest, usages_eq, ← hparameters]
      rfl
    case apart =>
      rw [List.pairwise_append]
      refine ⟨(variablesIn_ascending _ _ _).filter _, (variablesIn_ascending _ _ _).filter _, ?_⟩
      intro p hp q hq
      have hbefore := (mem_variablesIn.mp (List.mem_of_mem_filter hp)).2.2.1
      have hbehind := (mem_variablesIn.mp (List.mem_of_mem_filter hq)).2.1
      exact Nat.lt_of_lt_of_le hbefore hbehind
    case declared =>
      intro p hp
      obtain ⟨htoken, hlo, hhi, _⟩ := mem_variablesIn.mp (List.mem_of_mem_filter hp)
      exact ⟨htoken, Nat.lt_of_lt_of_le hnamed hlo, hhi⟩
    case used =>
      intro l i
      rw [Site.using, List.mem_filter, mem_variablesIn, List.contains_iff_mem, List.mem_map,
        and_assoc, and_assoc, and_assoc]

theorem sites_ascending (separates : Lexeme → Bool) (tokens : List Lexeme) :
    (sites separates tokens).Pairwise fun s next => s.stop ≤ next.start := by
  refine List.pairwise_filterMap.mpr ((marks_ascending separates 0 tokens).imp_of_mem ?_)
  rintro ⟨start, boundary⟩ ⟨start', boundary'⟩ _ hnext hlt s hs s' hs'
  cases boundary with
  | other => cases hs
  | routine kind lead =>
    cases boundary' with
    | other => cases hs'
    | routine kind' lead' =>
      cases hs
      cases hs'
      exact stopBehind_le (marks_ascending separates 0 tokens) hnext hlt

end Routine

def FileScopes.around (f : FileScopes) (offset : Nat) : List Routine :=
  f.routines.filter fun r => decide (r.span.start ≤ offset) && decide (offset < r.span.stop)

theorem FileScopes.length_around (text : List Char) (offset : Nat) :
    ((ofText text).around offset).length ≤ 1 := by
  have hapart := (routines_apart text).filter fun r =>
    decide (r.span.start ≤ offset) && decide (offset < r.span.stop)
  change ((ofText text).around offset).Pairwise _ at hapart
  have haround : ∀ r ∈ (ofText text).around offset, r.span.start ≤ offset ∧ offset < r.span.stop := by
    intro r hr
    simpa only [Bool.and_eq_true, decide_eq_true_eq] using (List.mem_filter.mp hr).2
  match hrs : (ofText text).around offset with
  | [] => exact Nat.zero_le 1
  | [_] => exact Nat.le_refl 1
  | r :: r' :: rs =>
    rw [hrs] at hapart haround
    have hle := (List.pairwise_cons.mp hapart).1 r' List.mem_cons_self
    have hr := (haround r List.mem_cons_self).2
    have hr' := (haround r' (List.mem_cons_of_mem r List.mem_cons_self)).1
    omega

namespace Routine

/-- Routines take up runs of tokens one behind the other. The parameters of each and their uses are
distinct tokens of it: the parameters stand in the header, and the uses are those variables from the
end of the header on that have the name of a parameter. So no byte of a text, and no statement,
stands in two routines, and no parameter is emitted twice. -/
theorem routines_exact (separates : Lexeme → Bool) (tokens : List Lexeme) :
    all separates tokens = (sites separates tokens).map (·.routine) ∧
      (sites separates tokens).Pairwise (fun s next => s.stop ≤ next.start) ∧
      (∀ s ∈ sites separates tokens, Stands separates tokens s) ∧
      (∀ text offset, ((FileScopes.ofText text).around offset).length ≤ 1) ∧
      ∀ uri text catalog,
        ((Usage.emissions (.ofText uri text (.ofText text)) catalog).filter fun e =>
          decide (e.kind? = some .parameter)).Nodup := by
  refine ⟨all_eq separates tokens, sites_ascending separates tokens, ?_, ?_, ?_⟩
  · exact fun s hs => stands_of_mem_sites hs
  · exact FileScopes.length_around
  · exact fun uri text catalog => (Usage.emissions_nodup uri text catalog).filter _

/-- The first `AS` stands between a parameter and its type, the second one ends the header. -/
example :
    let tokens := (lexemes? .tsql 0 "CREATE PROC p @a AS INT AS SELECT @a, @b".toList).getD []
    let found := sites (fun _ => false) tokens
    (found.map fun s => (s.start, s.named, s.body, s.stop)) = [(0, 3, 6, 11)] ∧
      (found.map fun s => (s.using tokens).map (·.2)) = [[8]] := by
  decide +kernel

end Routine

end SqlAtlas
