import Mathlib.Data.List.Pairwise
import SqlAtlas.Proofs.Scope.Names
import SqlAtlas.Proofs.Scope.Splitting
import SqlAtlas.Proofs.Scope.Statement

/-!
# Statements partition a file

The statements of a list of tokens are ranges of it that ascend and stand apart, and what stands in
none of them is a separator outside parentheses. Tokens stand apart in the text, and so do the
statements of a file; a place belongs to one statement at most, or ends one.
-/

namespace SqlAtlas

set_option autoImplicit false

open Text

namespace Statement

/-! ### Ranges of tokens -/

/-- Ranges of the tokens from the index `start` on that leave out separators only. -/
structure Partition (separates : Lexeme → Bool) (tokens : List Lexeme) (start : Nat)
    (ranges : List (Nat × Nat)) : Prop where
  bounds : ∀ r ∈ ranges, start ≤ r.1 ∧ r.1 < r.2 ∧ r.2 ≤ tokens.length
  apart : ranges.Pairwise fun r next => r.2 ≤ next.1
  inside_iff : ∀ i l, start ≤ i → tokens[i]? = some l → ((∃ r ∈ ranges, r.1 ≤ i ∧ i < r.2) ↔
    ¬(depthFrom 0 (tokens.take i) = 0 ∧ Separator separates l))

variable {separates : Lexeme → Bool}

theorem Partition.nil (tokens : List Lexeme) : Partition separates tokens tokens.length [] where
  bounds := nofun
  apart := .nil
  inside_iff i l hi hl := by
    rw [List.getElem?_eq_none hi] at hl
    cases hl

theorem Partition.separator {before rest : List Lexeme} {l : Lexeme} {ranges : List (Nat × Nat)}
    (hdepth : depthFrom 0 before = 0) (hl : Separator separates l)
    (h : Partition separates (before ++ l :: rest) (before.length + 1) ranges) :
    Partition separates (before ++ l :: rest) before.length ranges := by
  refine ⟨fun r hr => ?_, h.apart, fun i m hi hm => ?_⟩
  · have hbound := h.bounds r hr
    omega
  · rcases Nat.eq_or_lt_of_le hi with rfl | hi
    · rw [List.getElem?_append_right (Nat.le_refl _), Nat.sub_self] at hm
      cases hm
      rw [List.take_left]
      refine iff_of_false ?_ (not_not_intro ⟨hdepth, hl⟩)
      rintro ⟨r, hr, hle, _⟩
      have hbound := h.bounds r hr
      omega
    · exact h.inside_iff i m hi hm

theorem Whole.not_separator {l : Lexeme} {more rest : List Lexeme} (h : Whole separates l more rest)
    {before after : List Lexeme} {m : Lexeme} (hsplit : l :: more = before ++ m :: after) :
    ¬(depthFrom 0 before = 0 ∧ Separator separates m) := by
  rintro ⟨hdepth, hm⟩
  obtain ⟨p, last, hextends, _⟩ := h.extended
  cases before with
  | nil =>
    cases hsplit
    exact h.first hm
  | cons _ before =>
    cases hsplit
    exact hextends.not_separator rfl hdepth hm

theorem Partition.statement {before more rest : List Lexeme} {l : Lexeme}
    {ranges : List (Nat × Nat)} (hdepth : depthFrom 0 before = 0) (hwhole : Whole separates l more rest)
    (h : Partition separates (before ++ (l :: more ++ rest)) (before ++ l :: more).length ranges) :
    Partition separates (before ++ (l :: more ++ rest)) before.length
      ((before.length, (before ++ l :: more).length) :: ranges) := by
  have hlength : before.length < (before ++ l :: more).length := by simp
  refine ⟨?_, List.pairwise_cons.mpr ⟨fun r hr => (h.bounds r hr).1, h.apart⟩, fun i m hi hm => ?_⟩
  · rintro r (_ | ⟨_, hr⟩)
    · refine ⟨Nat.le_refl _, hlength, ?_⟩
      simp only [List.length_append]
      omega
    · have hbound := h.bounds r hr
      omega
  · rcases Nat.lt_or_ge i (before ++ l :: more).length with hlt | hge
    · -- inside the statement: what stands in front of the token is a part of the statement
      refine iff_of_true ⟨_, List.mem_cons_self, hi, hlt⟩ ?_
      obtain ⟨k, rfl⟩ := Nat.exists_eq_add_of_le hi
      have hk : k < (l :: more).length := by
        rw [List.length_append] at hlt
        omega
      rw [List.getElem?_append_right (Nat.le_add_right _ k), Nat.add_sub_cancel_left,
        List.getElem?_append_left hk] at hm
      obtain ⟨hk, rfl⟩ := List.getElem?_eq_some_iff.mp hm
      rw [List.take_length_add_append, List.take_append_of_le_length (Nat.le_of_lt hk),
        depthFrom_append, hdepth]
      have hsplit : l :: more = (l :: more).take k ++ (l :: more)[k] :: (l :: more).drop (k + 1) := by
        rw [List.getElem_cons_drop, List.take_append_drop]
      exact hwhole.not_separator hsplit
    · rw [← h.inside_iff i m hge hm]
      constructor
      · rintro ⟨r, _ | ⟨_, hr⟩, hle, hlt⟩
        · exact absurd hlt (Nat.not_lt_of_le hge)
        · exact ⟨r, hr, hle, hlt⟩
      · rintro ⟨r, hr, hin⟩
        exact ⟨r, List.mem_cons_of_mem _ hr, hin⟩

/-- Statements are the ranges of a partition of the tokens. No parenthesis is open where tokens are
left to be cut. -/
theorem Splits.partition {ls : List Lexeme} {statements : List (List Lexeme)}
    (h : Splits separates ls statements)
    (hseparates : ∀ l, separates l = true → depthAfter 0 l.token = 0) (before : List Lexeme)
    (hdepth : ls ≠ [] → depthFrom 0 before = 0) : ∃ ranges : List (Nat × Nat),
      statements = ranges.map (fun r => (before ++ ls).extract r.1 r.2) ∧
        Partition separates (before ++ ls) before.length ranges := by
  induction h generalizing before with
  | nil =>
    rw [List.append_nil]
    exact ⟨[], rfl, .nil before⟩
  | @separator l rest statements hl hrest ih =>
    have hbefore := hdepth (List.cons_ne_nil l rest)
    have hafter : depthFrom 0 (before ++ [l]) = 0 := by
      rw [depthFrom_append, hbefore]
      rcases hl with hl | hl
      · rw [depthFrom, List.map_singleton, hl]
        rfl
      · exact hseparates l hl
    obtain ⟨ranges, hstatements, hpartition⟩ := ih (before ++ [l]) fun _ => hafter
    rw [List.append_assoc, List.singleton_append, List.length_append, List.length_singleton]
      at hpartition
    rw [List.append_assoc, List.singleton_append] at hstatements
    exact ⟨ranges, hstatements, hpartition.separator hbefore hl⟩
  | @statement l more rest statements hwhole hrest ih =>
    have hbefore := hdepth (List.cons_ne_nil l _)
    have hafter : rest ≠ [] → depthFrom 0 (before ++ l :: more) = 0 := by
      intro hne
      obtain ⟨p, last, hextends, hends⟩ := hwhole.extended
      obtain ⟨m, rest, rfl⟩ := List.exists_cons_of_ne_nil hne
      rw [depthFrom_append, hbefore]
      exact hextends.depth_eq.symm.trans (extend?_eq_none hends).1
    obtain ⟨ranges, hstatements, hpartition⟩ := ih (before ++ l :: more) hafter
    rw [List.append_assoc] at hstatements hpartition
    refine ⟨(before.length, (before ++ l :: more).length) :: ranges, ?_, hpartition.statement hbefore hwhole⟩
    rw [List.map_cons, ← List.cons_append, ← hstatements, List.extract_eq_take_drop,
      List.drop_left, List.length_append, Nat.add_sub_cancel_left, List.take_left]

/-- A token of a partition stands in one range only. -/
theorem Partition.existsUnique_iff {tokens : List Lexeme} {start : Nat} {ranges : List (Nat × Nat)}
    (h : Partition separates tokens start ranges) (i : Nat) :
    (∃! r, r ∈ ranges ∧ r.1 ≤ i ∧ i < r.2) ↔ ∃ r ∈ ranges, r.1 ≤ i ∧ i < r.2 := by
  refine ⟨ExistsUnique.exists, ?_⟩
  rintro ⟨r, hr, hin⟩
  refine ⟨r, ⟨hr, hin⟩, ?_⟩
  rintro r' ⟨hr', hin'⟩
  by_contra hne
  let beside : Nat × Nat → Nat × Nat → Prop := fun r next => r.2 ≤ next.1 ∨ next.2 ≤ r.1
  have : Std.Symm beside := ⟨fun _ _ => Or.symm⟩
  have hbeside : ranges.Pairwise beside := h.apart.imp Or.inl
  rcases hbeside.forall hr' hr hne with hle | hle
  · omega
  · omega

theorem Splits.flatten_sublist {ls : List Lexeme}
    {statements : List (List Lexeme)} (h : Splits separates ls statements) :
    statements.flatten.Sublist ls ∧ ∀ s ∈ statements, s ≠ [] := by
  induction h with
  | nil => exact ⟨.slnil, nofun⟩
  | separator _ _ ih => exact ⟨ih.1.cons _, ih.2⟩
  | statement _ _ ih =>
    obtain ⟨hsub, hne⟩ := ih
    rw [List.flatten_cons, ← List.cons_append]
    refine ⟨hsub.append_left _, ?_⟩
    rintro s (_ | ⟨_, hs⟩)
    · exact List.cons_ne_nil _ _
    · exact hne s hs

theorem depthAfter_of_isBatchSeparator {cs : List Char} {l : Lexeme} (h : isBatchSeparator cs l = true) :
    depthAfter 0 l.token = 0 := by
  rw [isBatchSeparator, Bool.and_eq_true, Token.isKeyword, Option.any_eq_true] at h
  obtain ⟨⟨w, hw, _⟩, _⟩ := h
  exact depthAfter_of_bareWord? hw 0

end Statement

namespace FileScopes

open Statement

/-- Tokens that stand one behind the other, none of them empty. -/
structure Apart (ls : List Lexeme) : Prop where
  nonempty : ∀ l ∈ ls, l.span.start < l.span.stop
  apart : ls.Pairwise fun l next => l.span.stop ≤ next.span.start

theorem Apart.sublist {ls ms : List Lexeme} (h : Apart ms) (hsub : ls.Sublist ms) : Apart ls :=
  ⟨fun l hl => h.nonempty l (hsub.subset hl), h.apart.sublist hsub⟩

theorem PieceTokens.apart {text : List Char} {here : Span} {tokens : List Lexeme}
    (h : PieceTokens text here tokens) : Apart tokens ∧ ∀ l ∈ tokens, here.start ≤ l.span.start := by
  obtain ⟨_, _, htokens⟩ := h
  obtain ⟨hbounds, hapart⟩ := lexemesFrom_apart htokens
  exact ⟨⟨fun l hl => (hbounds l hl).2, hapart⟩, fun l hl => (hbounds l hl).1⟩

structure Cut.Ordered (c : Cut) : Prop where
  tokens : Apart c.tokens
  statements : c.statements.flatten.Sublist c.tokens
  nonempty : ∀ s ∈ c.statements, s ≠ []

theorem ordered_of_cutPiece? {text piece : List Char} {here : Span} {c : Cut}
    (hpiece : IsPiece text here piece) (h : cutPiece? text here = some c) : c.Ordered := by
  obtain ⟨htokens, hsplits⟩ := tokens_of_cutPiece? hpiece h
  obtain ⟨hsub, hne⟩ := hsplits.flatten_sublist
  exact ⟨htokens.apart.1, hsub, hne⟩

theorem ordered_cut (text : List Char) : (cut text).Ordered := by
  rw [cut]
  split
  · rename_i whole hwhole
    exact ordered_of_cutPiece? (isPiece_whole text) hwhole
  · have hpieces : ∀ here ∈ splitOnSemicolons text, ∀ c, cutPiece? text here = some c →
        c.Ordered ∧ PieceTokens text here c.tokens := by
      intro here hhere c hc
      obtain ⟨piece, hpiece, _⟩ := isPiece_of_mem_splitOnSemicolons hhere
      exact ⟨ordered_of_cutPiece? hpiece hc, (tokens_of_cutPiece? hpiece hc).1⟩
    have hmem : ∀ c ∈ (splitOnSemicolons text).filterMap (cutPiece? text), c.Ordered := by
      intro c hc
      obtain ⟨here, hhere, hc⟩ := List.mem_filterMap.mp hc
      exact (hpieces here hhere c hc).1
    refine ⟨⟨?_, ?_⟩, ?_, ?_⟩
    · intro l hl
      obtain ⟨c, hc, hl⟩ := List.mem_flatMap.mp hl
      exact (hmem c hc).tokens.nonempty l hl
    · refine List.pairwise_flatMap.mpr ⟨fun c hc => (hmem c hc).tokens.apart, ?_⟩
      rw [List.pairwise_filterMap]
      refine (splitOnSemicolons_apart text).imp_of_mem fun {here next} hhere hnext hle => ?_
      intro c hc d hd l hl m hm
      have hlast := (hpieces here hhere c hc).2.stop_le hl
      have hfirst := (hpieces next hnext d hd).2.apart.2 m hm
      omega
    · simp only
      generalize (splitOnSemicolons text).filterMap (cutPiece? text) = pieces at hmem
      induction pieces with
      | nil => exact .slnil
      | cons c pieces ih =>
        rw [List.flatMap_cons, List.flatMap_cons, List.flatten_append]
        exact (hmem c List.mem_cons_self).statements.append
          (ih fun d hd => hmem d (List.mem_cons_of_mem c hd))
    · intro s hs
      obtain ⟨c, hc, hs⟩ := List.mem_flatMap.mp hs
      exact (hmem c hc).nonempty s hs

theorem spanOf_eq {first last : Lexeme} {ls : List Lexeme} (hfirst : ls.head? = some first)
    (hlast : ls.getLast? = some last) : Routine.spanOf ls = ⟨first.span.start, last.span.stop⟩ := by
  rw [Routine.spanOf, hfirst, hlast]
  rfl

theorem exists_spanOf {ls : List Lexeme} (hne : ls ≠ []) : ∃ first ∈ ls, ∃ last ∈ ls,
    Routine.spanOf ls = ⟨first.span.start, last.span.stop⟩ := by
  obtain ⟨first, rest, rfl⟩ := List.exists_cons_of_ne_nil hne
  have hlast := List.getLast?_eq_some_getLast hne
  exact ⟨first, List.mem_cons_self, _, List.getLast_mem hne, spanOf_eq rfl hlast⟩

theorem Apart.within {ls : List Lexeme} (h : Apart ls) {l : Lexeme} (hl : l ∈ ls) :
    (Routine.spanOf ls).start ≤ l.span.start ∧ l.span.stop ≤ (Routine.spanOf ls).stop := by
  have hne := List.ne_nil_of_mem hl
  have hhead := List.head?_eq_some_head hne
  have hlast := List.getLast?_eq_some_getLast hne
  rw [spanOf_eq hhead hlast]
  constructor
  · obtain ⟨rest, hrest⟩ := List.head?_eq_some_iff.mp hhead
    have happart := h.apart
    rw [hrest] at hl happart
    rcases List.mem_cons.mp hl with rfl | hmem
    · exact Nat.le_refl _
    · have hlt := h.nonempty _ (List.head_mem hne)
      have hle := (List.pairwise_cons.mp happart).1 l hmem
      simp only
      omega
  · obtain ⟨front, hfront⟩ := List.getLast?_eq_some_iff.mp hlast
    have happart := h.apart
    rw [hfront] at hl happart
    rcases List.mem_append.mp hl with hmem | hmem
    · have hlt := h.nonempty _ (List.getLast_mem hne)
      have hle := (List.pairwise_append.mp happart).2.2 l hmem _ (List.mem_singleton_self _)
      simp only
      omega
    · rw [List.mem_singleton.mp hmem]

theorem Apart.start_lt_stop {ls : List Lexeme} (h : Apart ls) (hne : ls ≠ []) :
    (Routine.spanOf ls).start < (Routine.spanOf ls).stop := by
  obtain ⟨l, hl⟩ := List.exists_mem_of_ne_nil ls hne
  have hlt := h.nonempty l hl
  obtain ⟨hstart, hstop⟩ := h.within hl
  omega

theorem Apart.runs {runs : List (List Lexeme)} (h : Apart runs.flatten) (hne : ∀ run ∈ runs, run ≠ []) :
    (∀ run ∈ runs, (Routine.spanOf run).start < (Routine.spanOf run).stop) ∧
      runs.Pairwise fun run next => (Routine.spanOf run).stop ≤ (Routine.spanOf next).start := by
  refine ⟨fun run hrun => ?_, (List.pairwise_flatten.mp h.apart).2.imp_of_mem ?_⟩
  · exact (h.sublist (List.sublist_flatten_of_mem hrun)).start_lt_stop (hne run hrun)
  · intro run next hrun hnext hle
    obtain ⟨_, _, last, hlast, hspan⟩ := exists_spanOf (hne run hrun)
    obtain ⟨first, hfirst, _, _, hspan'⟩ := exists_spanOf (hne next hnext)
    rw [hspan, hspan']
    exact hle last hlast first hfirst

structure InOrder (f : FileScopes) : Prop where
  nonempty : ∀ s ∈ f.statements, s.span.start < s.span.stop
  apart : f.statements.Pairwise fun s next => s.span.stop ≤ next.span.start

theorem inOrder_ofText (text : List Char) : (ofText text).InOrder := by
  have hcut := ordered_cut text
  obtain ⟨hnonempty, happart⟩ := (hcut.tokens.sublist hcut.statements).runs hcut.nonempty
  refine ⟨fun s hs => ?_, List.pairwise_map.mpr happart⟩
  obtain ⟨ls, hls, rfl⟩ := List.mem_map.mp hs
  exact hnonempty ls hls

/-! ### The statement at a place -/

section

variable {f : FileScopes}

theorem touches_of_scopeAt? {offset : Nat} {s : StatementScope} (h : f.scopeAt? offset = some s) :
    s.span.start ≤ offset ∧ offset ≤ s.span.stop := by
  obtain ⟨hlast, hstop⟩ := Option.filter_eq_some_iff.mp h
  have hstart := List.mem_takeWhile_imp (List.mem_of_getLast? hlast)
  exact ⟨of_decide_eq_true hstart, of_decide_eq_true hstop⟩

/-- A statement that reaches up to a place is the one found there, unless the next one has started. -/
theorem InOrder.scopeAt?_eq (h : f.InOrder) {before after : List StatementScope} {s : StatementScope}
    (hsplit : f.statements = before ++ s :: after) {offset : Nat} (hstart : s.span.start ≤ offset)
    (hstop : offset ≤ s.span.stop) (hafter : ∀ next ∈ after, offset < next.span.start) :
    f.scopeAt? offset = some s := by
  have happart := h.apart
  have hnonempty := h.nonempty
  rw [hsplit] at happart hnonempty
  have hbefore : ∀ t ∈ before ++ [s], decide (t.span.start ≤ offset) = true := by
    intro t ht
    rw [decide_eq_true_eq]
    rcases List.mem_append.mp ht with ht | ht
    · have hlt := hnonempty t (List.mem_append_left _ ht)
      have hle := (List.pairwise_append.mp happart).2.2 t ht s List.mem_cons_self
      omega
    · rwa [List.mem_singleton.mp ht]
  have hnone : after.takeWhile (fun t => decide (t.span.start ≤ offset)) = [] := by
    cases after with
    | nil => rfl
    | cons next after =>
      have hlt := hafter next List.mem_cons_self
      exact List.takeWhile_cons_of_neg (by simpa using hlt)
  rw [scopeAt?, hsplit, ← List.singleton_append, ← List.append_assoc,
    List.takeWhile_append_of_pos hbefore, hnone, List.append_nil, List.getLast?_concat]
  exact Option.filter_eq_some_iff.mpr ⟨rfl, decide_eq_true hstop⟩

/-- The statement around a place is the one found there. -/
theorem InOrder.scopeAt?_of_mem (h : f.InOrder) {s : StatementScope} (hs : s ∈ f.statements)
    {offset : Nat} (hstart : s.span.start ≤ offset) (hstop : offset < s.span.stop) :
    f.scopeAt? offset = some s := by
  obtain ⟨before, after, hsplit⟩ := List.append_of_mem hs
  refine h.scopeAt?_eq hsplit hstart (Nat.le_of_lt hstop) fun next hnext => ?_
  have happart := h.apart
  rw [hsplit] at happart
  exact Nat.lt_of_lt_of_le hstop ((List.pairwise_cons.mp (List.pairwise_append.mp happart).2.1).1 next hnext)

/-- Where no statement stands around a place, the one that ends there is found. -/
theorem InOrder.scopeAt?_of_stop (h : f.InOrder) {s : StatementScope} (hs : s ∈ f.statements)
    (hnone : ∀ t ∈ f.statements, ¬(t.span.start ≤ s.span.stop ∧ s.span.stop < t.span.stop)) :
    f.scopeAt? s.span.stop = some s := by
  obtain ⟨before, after, hsplit⟩ := List.append_of_mem hs
  refine h.scopeAt?_eq hsplit (Nat.le_of_lt (h.nonempty s hs)) (Nat.le_refl _) fun next hnext => ?_
  have hmem : next ∈ f.statements := by
    rw [hsplit]
    exact List.mem_append_right _ (List.mem_cons_of_mem s hnext)
  have happart := h.apart
  rw [hsplit] at happart
  have hle := (List.pairwise_cons.mp (List.pairwise_append.mp happart).2.1).1 next hnext
  have hlt := h.nonempty next hmem
  have hout := hnone next hmem
  omega

end

/-- Statements partition the tokens of any list, separators outside parentheses left out. In a file
they stand one behind the other, and a place belongs to the statement around it, else to the one that
ends there, else to none. -/
theorem statements_partition (text : List Char) :
    (∀ tokens, ∃ ranges : List (Nat × Nat),
      split (isBatchSeparator text) tokens = ranges.map (fun r => tokens.extract r.1 r.2) ∧
      (∀ r ∈ ranges, r.1 < r.2 ∧ r.2 ≤ tokens.length) ∧
      ranges.Pairwise (fun r next => r.2 ≤ next.1) ∧
      ∀ i l, tokens[i]? = some l → ((∃! r, r ∈ ranges ∧ r.1 ≤ i ∧ i < r.2) ↔
        ¬(depthFrom 0 (tokens.take i) = 0 ∧ (l.token = .semicolon ∨ isBatchSeparator text l = true)))) ∧
    (∀ s ∈ (ofText text).statements, s.span.start < s.span.stop) ∧
    (ofText text).statements.Pairwise (fun s next => s.span.stop ≤ next.span.start) ∧
    ∀ offset,
      (∀ s ∈ (ofText text).statements, s.span.start ≤ offset → offset < s.span.stop →
        (ofText text).scopeAt? offset = some s) ∧
      ((∀ s ∈ (ofText text).statements, ¬(s.span.start ≤ offset ∧ offset < s.span.stop)) →
        (∀ s ∈ (ofText text).statements, s.span.stop = offset → (ofText text).scopeAt? offset = some s) ∧
        ((∀ s ∈ (ofText text).statements, s.span.stop ≠ offset) → (ofText text).scopeAt? offset = none)) := by
  have horder := inOrder_ofText text
  refine ⟨fun tokens => ?_, horder.nonempty, horder.apart, fun offset => ⟨?_, fun hnone => ⟨?_, ?_⟩⟩⟩
  · have hsplits : Splits (isBatchSeparator text) tokens (split (isBatchSeparator text) tokens) :=
      splits_split tokens
    obtain ⟨ranges, hranges, hpartition⟩ :=
      hsplits.partition (fun _ => depthAfter_of_isBatchSeparator) [] fun _ => rfl
    refine ⟨ranges, hranges, fun r hr => (hpartition.bounds r hr).2, hpartition.apart, fun i l hl => ?_⟩
    exact (hpartition.existsUnique_iff i).trans (hpartition.inside_iff i l (Nat.zero_le i) hl)
  · exact fun s hs => horder.scopeAt?_of_mem hs
  · rintro s hs rfl
    exact horder.scopeAt?_of_stop hs hnone
  · intro hstop
    rw [Option.eq_none_iff_forall_ne_some]
    intro s hs
    have hmem := mem_of_scopeAt? hs
    obtain ⟨hle, hlast⟩ := touches_of_scopeAt? hs
    exact hnone s hmem ⟨hle, Nat.lt_of_le_of_ne hlast (hstop s hmem).symm⟩

end FileScopes

end SqlAtlas
