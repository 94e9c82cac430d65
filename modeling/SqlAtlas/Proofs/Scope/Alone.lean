import SqlAtlas.Proofs.Name.Token
import SqlAtlas.Proofs.Scope.Partition

/-!
# A statement on its own

A statement that is cut out of its file is one statement again, with the names it had there. Whether
a token extends a statement depends on the tokens in front of it, on two behind it and on its line: a
token that ends a statement decides nothing about the tokens before it, and the line of a token starts
no later than the statement or within it.
-/

namespace SqlAtlas

set_option autoImplicit false

open Text Scan

namespace Statement

/-! ### Looking ahead -/

/-- Tokens that neither open a parenthesis nor go on with the name of a subquery. -/
def Plain (rest : List Lexeme) : Prop :=
  ∀ l, rest.head? = some l → l.token ≠ .openParen ∧ l.token.isKeyword "AS" = false

variable {separates : Lexeme → Bool}

theorem isKeyword_of_startsStatement {t : Token} {w : List Char} (hw : t.bareWord? = some w)
    (hstart : Keyword.startsStatement w = true) {keyword : String}
    (hkeyword : keyword ∉ Keyword.statementWords) : t.isKeyword keyword = false := by
  rw [Bool.eq_false_iff]
  intro h
  rw [Token.isKeyword, hw, Option.any_some, beq_iff_eq] at h
  rw [Keyword.startsStatement, Keyword.oneOf, h, String.ofList_toList, List.contains_iff_mem] at hstart
  exact hkeyword hstart

/-- What ends a statement is plain. -/
theorem plain_of_ends {cs : List Char} {prev : Option Lexeme} {p : Pending} {rest : List Lexeme}
    (h : Ends (isBatchSeparator cs) prev p rest) : Plain rest := by
  intro l hl
  obtain ⟨rest, rfl⟩ := List.head?_eq_some_iff.mp hl
  obtain ⟨_, (hsemicolon | hgo) | ⟨w, hw, hstart⟩⟩ := extend?_eq_none h
  · rw [hsemicolon]
    exact ⟨nofun, rfl⟩
  · rw [isBatchSeparator, Bool.and_eq_true, Token.isKeyword, Option.any_eq_true] at hgo
    obtain ⟨⟨w, hw, hword⟩, _⟩ := hgo
    refine ⟨?_, ?_⟩
    · intro hparen
      rw [hparen] at hw
      cases hw
    · rw [Token.isKeyword, hw, Option.any_some, beq_iff_eq.mp hword]
      rfl
  · refine ⟨?_, isKeyword_of_startsStatement hw hstart (by decide)⟩
    intro hparen
    rw [hparen] at hw
    cases hw

section

variable {prev : Option Lexeme} {p : Pending} {l : Lexeme} {more rest : List Lexeme}

theorem startsCteList_append (hrest : Plain rest) (hmore : more ≠ []) :
    startsCteList (more ++ rest) = startsCteList more := by
  match more with
  | [name] =>
    cases rest with
    | nil => rfl
    | cons next rest =>
      obtain ⟨hparen, has⟩ := hrest next rfl
      simp [startsCteList, has, hparen]
  | name :: next :: more => rfl

/-- Plain tokens behind the next one decide nothing. -/
theorem extend?_append (hrest : Plain rest) (hmore : more ≠ []) :
    p.extend? separates prev l (more ++ rest) = p.extend? separates prev l more := by
  have hhead : (more ++ rest).head? = more.head? := by
    obtain ⟨first, more, rfl⟩ := List.exists_cons_of_ne_nil hmore
    rfl
  simp only [Pending.extend?, advance, continue?, startsCteList_append hrest hmore, hhead]

theorem continue?_last {w : List Char} (hrest : Plain rest) (h : continue? p prev w rest ≠ none) :
    continue? p prev w [] ≠ none := by
  have hhead : (rest.head?.map (·.token) == some Token.openParen) = false := by
    cases hl : rest.head? with
    | none => rfl
    | some next => simpa using (hrest next hl).1
  rw [continue?] at h ⊢
  simp only [hhead, Bool.and_false, Bool.false_eq_true, if_false] at h
  split
  · exact Option.some_ne_none p
  rename_i hstart
  rw [if_neg hstart] at h
  split
  · exact Option.some_ne_none p
  rename_i hprev
  rw [if_neg hprev] at h
  split
  · exact Option.some_ne_none p
  rename_i hwith
  have hword : (String.ofList (asciiUpper w) == "WITH") = false := by
    simpa [startsCteList] using hwith
  rw [hword, Bool.false_and, if_neg Bool.false_ne_true] at h
  split
  · exact Option.some_ne_none p
  · exact h

theorem advance_last (hrest : Plain rest) (h : advance p prev l rest ≠ none) :
    advance p prev l [] ≠ none := by
  rw [advance] at h ⊢
  split
  · exact Option.some_ne_none p
  · rename_i w hw
    simp only [hw] at h
    split
    · exact Option.some_ne_none _
    rename_i hcase
    rw [if_neg hcase] at h
    split
    · exact Option.some_ne_none _
    rename_i hend
    rw [if_neg hend] at h
    exact continue?_last hrest h

/-- The last token of a statement in front of plain ones goes on with it when nothing follows. -/
theorem extend?_last (hrest : Plain rest) (h : p.extend? separates prev l rest ≠ none) :
    p.extend? separates prev l [] ≠ none := by
  rw [Pending.extend?] at h ⊢
  split
  · rename_i hcut
    exact absurd (if_pos hcut) h
  rename_i hcut
  rw [if_neg hcut] at h
  split
  · exact Option.some_ne_none _
  rename_i hdepth
  rw [if_neg hdepth] at h
  rw [ne_eq, Option.map_eq_none_iff] at h ⊢
  exact advance_last hrest h

end

/-- The tokens of a statement in front of plain ones extend it when nothing follows. -/
theorem Extends.alone {rest more : List Lexeme} {prev : Option Lexeme} {p q : Pending}
    (h : Extends separates rest prev p more q) (hrest : Plain rest) :
    ∃ r, Extends separates [] prev p more r := by
  induction h with
  | done => exact ⟨_, .done⟩
  | @more prev p q r l more hl hmore ih =>
    obtain ⟨s, hs⟩ := ih
    cases more with
    | nil =>
      have hlast := extend?_last hrest (Option.ne_none_iff_exists'.mpr ⟨q, hl⟩)
      obtain ⟨q', hq'⟩ := Option.ne_none_iff_exists'.mp hlast
      exact ⟨q', .more hq' .done⟩
    | cons next more =>
      rw [extend?_append hrest (List.cons_ne_nil next more)] at hl
      exact ⟨s, .more (by rwa [List.append_nil]) hs⟩

/-- A scan whose tokens all extend the open statement finds that statement. -/
theorem Extends.splitFrom_eq {more : List Lexeme} {prev : Option Lexeme} {p q : Pending}
    (h : Extends separates [] prev p more q) (hopen : p.reversed ≠ []) :
    splitFrom separates prev p more = [p.reversed.reverse ++ more] := by
  induction h with
  | done => rw [splitFrom, Pending.finish, if_neg (by simpa using hopen), List.append_nil]
  | @more prev p q r l more hl hmore ih =>
    obtain ⟨_, hreversed, _⟩ := extend?_eq_some hl
    rw [List.append_nil] at hl
    rw [splitFrom_open hopen, hl]
    simp only
    rw [ih (by simp [hreversed]), hreversed, List.reverse_cons, List.append_assoc,
      List.singleton_append]

/-- A whole statement is the only statement of its tokens. -/
theorem Whole.split_eq {cs : List Char} {l : Lexeme} {more rest : List Lexeme}
    (h : Whole (isBatchSeparator cs) l more rest) :
    split (isBatchSeparator cs) (l :: more) = [l :: more] := by
  obtain ⟨p, last, hextends, hends⟩ := h.extended
  obtain ⟨q, hq⟩ := hextends.alone (plain_of_ends hends)
  have hfirst : ¬(l.token == .semicolon || isBatchSeparator cs l) = true := by
    simpa [Separator] using h.first
  rw [split, splitFrom_fresh, if_neg hfirst, hq.splitFrom_eq (List.cons_ne_nil l [])]
  rfl

/-! ### Tokens at other places -/

def Pending.map (f : Lexeme → Lexeme) (p : Pending) : Pending := { p with reversed := p.reversed.map f }

section

variable {f : Lexeme → Lexeme} {separates' : Lexeme → Bool}

theorem absorb?_map (p : Pending) (word : String) :
    absorb? (p.map f) word = (absorb? p word).map (Pending.map f) := by
  simp only [absorb?, apply_ite (Option.map (Pending.map f)), Option.map_some, Option.map_none]
  rfl

theorem startsCteList_map (htoken : ∀ l, (f l).token = l.token) (rest : List Lexeme) :
    startsCteList (rest.map f) = startsCteList rest := by
  match rest with
  | [] => rfl
  | [_] => rfl
  | name :: next :: rest => simp only [List.map_cons, startsCteList, htoken]

theorem advance_map (htoken : ∀ l, (f l).token = l.token) (p : Pending) (prev : Option Lexeme)
    (l : Lexeme) (rest : List Lexeme) : advance (p.map f) (prev.map f) (f l) (rest.map f) =
      (advance p prev l rest).map (Pending.map f) := by
  have hcontinue : ∀ w, continue? (p.map f) (prev.map f) w (rest.map f) =
      (continue? p prev w rest).map (Pending.map f) := by
    intro w
    have hhead : (rest.map f).head?.map (·.token) = rest.head?.map (·.token) := by
      cases rest with
      | nil => rfl
      | cons next rest => exact congrArg some (htoken next)
    have hprev : ((prev.map f).any fun l => continuesAfter (String.ofList (asciiUpper w)) l.token) =
        prev.any fun l => continuesAfter (String.ofList (asciiUpper w)) l.token := by
      cases prev with
      | none => rfl
      | some m => exact congrArg (continuesAfter _) (htoken m)
    simp only [continue?, startsCteList_map htoken, hhead, hprev, absorb?_map,
      apply_ite (Option.map (Pending.map f)), Option.map_some]
  rw [advance, advance, htoken]
  cases l.token.bareWord? with
  | none => rfl
  | some w =>
    simp only [hcontinue, apply_ite (Option.map (Pending.map f)), Option.map_some]
    rfl

theorem splitFrom_map (htoken : ∀ l, (f l).token = l.token) {ls : List Lexeme}
    (hseparates : ∀ l ∈ ls, separates' (f l) = separates l) (prev : Option Lexeme) (p : Pending) :
    splitFrom separates' (prev.map f) (p.map f) (ls.map f) =
      (splitFrom separates prev p ls).map (List.map f) := by
  have hfinish : ∀ p : Pending, (p.map f).finish = p.finish.map (List.map f) := by
    intro p
    cases hp : p.reversed with
    | nil => simp [Pending.finish, Pending.map, hp]
    | cons l reversed => simp [Pending.finish, Pending.map, hp]
  have hstart : ∀ depth l, (Pending.start depth l).map f = .start depth (f l) := by
    intro depth l
    simp only [Pending.start, Pending.map, htoken, List.map_cons, List.map_nil]
  induction ls generalizing prev p with
  | nil => exact hfinish p
  | cons l rest ih =>
    have hgo := fun q : Pending =>
      ih (fun m hm => hseparates m (List.mem_cons_of_mem l hm)) (some l) q
    have hadvance : advance { p.map f with depth := depthAfter p.depth l.token } (prev.map f) (f l)
        (rest.map f) = _ := advance_map htoken { p with depth := depthAfter p.depth l.token } prev l rest
    have hempty : (p.map f).reversed.isEmpty = p.reversed.isEmpty := List.isEmpty_map
    have hdepth : (p.map f).depth = p.depth := rfl
    rw [List.map_cons, splitFrom, splitFrom, hseparates l List.mem_cons_self, htoken, hempty, hdepth,
      hfinish, ← hstart]
    dsimp only at hadvance ⊢
    rw [← hstart]
    split
    · rw [List.map_append]
      exact congrArg (_ ++ ·) (hgo {})
    split
    · exact hgo _
    split
    · exact hgo { p.push l with depth := depthAfter p.depth l.token }
    · rw [hadvance]
      cases advance { p with depth := depthAfter p.depth l.token } prev l rest with
      | some q => exact hgo (q.push l)
      | none =>
        rw [List.map_append]
        exact congrArg (_ ++ ·) (hgo (.start 0 l))

theorem split_map (htoken : ∀ l, (f l).token = l.token) {ls : List Lexeme}
    (hseparates : ∀ l ∈ ls, separates' (f l) = separates l) :
    split separates' (ls.map f) = (split separates ls).map (List.map f) :=
  splitFrom_map htoken hseparates none {}

end

/-! ### Lines of a piece -/

/-- A place in a piece that starts with no blank starts a line there only if it does so in the whole
text, once something stands in front of it. -/
theorem startsLine_of_piece (before : List Char) {c : Char} (hc : isBlank c = false)
    (pre post after : List Char) :
    startsLine (before ++ (c :: pre ++ (post ++ after))) (size before + size (c :: pre)) =
      startsLine (c :: pre ++ post) (size (c :: pre)) := by
  rw [startsLine, startsLine, ← size_append, ← List.append_assoc, takeBytes_size_append,
    takeBytes_size_append, List.reverse_append, List.takeWhile_append]
  split
  · -- no line ends in the piece so far, so both lines hold its first character
    rename_i hall
    have hline : (c :: pre).reverse.takeWhile (· != '\n') = (c :: pre).reverse :=
      (List.takeWhile_prefix _).eq_of_length hall
    have hmem : c ∈ (c :: pre).reverse := List.mem_reverse.mpr List.mem_cons_self
    have hfalse : ∀ cs : List Char, c ∈ cs → cs.all isBlank = false := by
      intro cs hcs
      rw [List.all_eq_false]
      exact ⟨c, hcs, by simp [hc]⟩
    rw [hline, hfalse _ hmem, hfalse _ (List.mem_append_left _ hmem)]
  · rfl

/-- A text whose first token stands at its very start starts with no blank. -/
theorem exists_first_char {cs : List Char} {l : Lexeme} {ls : List Lexeme}
    (h : lexemesFrom .tsql 0 cs = some (l :: ls)) (hstart : l.span.start = 0) :
    ∃ c rest, cs = c :: rest ∧ isBlank c = false := by
  cases cs with
  | nil =>
    rw [lexemesFrom] at h
    cases h
  | cons c rest =>
    refine ⟨c, rest, rfl, ?_⟩
    rw [Bool.eq_false_iff]
    intro hblank
    rw [lexemesFrom, front_blank hblank] at h
    have hlater := ((lexemesFrom_apart h).1 l List.mem_cons_self).1
    have hpos := c.utf8Size_pos
    simp only [List.take_zero, size_cons, size_nil] at hlater
    omega

end Statement

namespace FileScopes

open Statement

/-! ### Cutting a statement out -/

def tokensIn (text : List Char) (here : Span) : List Lexeme :=
  (cut text).tokens.filter fun l =>
    decide (here.start ≤ l.span.start) && decide (l.span.stop ≤ here.stop)

/-- The tokens within the range of a run of tokens are those of the run. -/
theorem Apart.filter_spanOf {tokens ls : List Lexeme} (h : Apart tokens) (hne : ls ≠ [])
    (hblock : ls <:+: tokens) : (tokens.filter fun l => decide ((Routine.spanOf ls).start ≤ l.span.start) &&
      decide (l.span.stop ≤ (Routine.spanOf ls).stop)) = ls := by
  obtain ⟨before, after, rfl⟩ := hblock
  obtain ⟨first, hfirst, last, hlast, hspan⟩ := exists_spanOf hne
  obtain ⟨hfront, _, hafter⟩ := List.pairwise_append.mp h.apart
  obtain ⟨_, _, hbefore⟩ := List.pairwise_append.mp hfront
  rw [List.filter_append, List.filter_append, List.filter_eq_nil_iff.mpr, List.filter_eq_self.mpr,
    List.filter_eq_nil_iff.mpr, List.nil_append, List.append_nil]
  · intro l hl
    have hlt := h.nonempty l (List.mem_append_right _ hl)
    have hle := hafter last (List.mem_append_right _ hlast) l hl
    rw [hspan]
    simp only [Bool.and_eq_true, decide_eq_true_eq]
    omega
  · intro l hl
    have hls := h.sublist (List.infix_append before ls after).sublist
    simpa using hls.within hl
  · intro l hl
    have hlt := h.nonempty l (List.mem_append_left _ (List.mem_append_left _ hl))
    have hle := hbefore l hl first hfirst
    rw [hspan]
    simp only [Bool.and_eq_true, decide_eq_true_eq]
    omega

theorem tokensIn_spanOf {text : List Char} {ls : List Lexeme} (hls : ls ∈ (cut text).statements) :
    tokensIn text (Routine.spanOf ls) = ls := by
  have hcut := ordered_cut text
  obtain ⟨_, tokens, _, _, hsplits, hstatement, hblock⟩ := exists_piece_of_mem_cut hls
  obtain ⟨before, l, more, rest, rfl, rfl, _⟩ := hsplits.whole_of_mem hstatement
  have hrun : l :: more <:+: before ++ (l :: more ++ rest) := ⟨before, rest, List.append_assoc _ _ _⟩
  exact hcut.tokens.filter_spanOf (List.cons_ne_nil l more) (hrun.trans hblock)

/-- A statement stands between two characters of its text. -/
theorem isPiece_spanOf {text : List Char} {ls : List Lexeme} (hls : ls ∈ (cut text).statements) :
    IsPiece text (Routine.spanOf ls) (slice text (Routine.spanOf ls)) := by
  have hcut := ordered_cut text
  have hne := hcut.nonempty ls hls
  have hlt := (hcut.tokens.sublist ((List.sublist_flatten_of_mem hls).trans hcut.statements)).start_lt_stop hne
  obtain ⟨_, tokens, htokens, hblock⟩ := infix_of_mem_cut hls
  obtain ⟨first, hfirst, last, hlast, hspan⟩ := exists_spanOf hne
  obtain ⟨_, hstart⟩ := htokens.isPiece (hblock.subset hfirst)
  obtain ⟨_, hstop⟩ := htokens.isPiece (hblock.subset hlast)
  rw [hspan] at hlt ⊢
  exact isPiece_of_boundaries hstart.boundary_start hstop.boundary_stop (Nat.le_of_lt hlt)

/-- A text that has tokens is cut into its statements as a whole. -/
theorem cut_of_lexemes {text : List Char} {ls : List Lexeme} (h : lexemes? .tsql 0 text = some ls) :
    cut text = ⟨ls, split (isBatchSeparator text) ls⟩ := by
  have hwhole : cutPiece? text ⟨0, size text⟩ = some ⟨ls, split (isBatchSeparator text) ls⟩ := by
    rw [cutPiece?, (isPiece_whole text).slice_eq, h, Option.map_some]
  rw [cut, hwhole]

/-- Batches are cut in a statement on its own as they are in its text. -/
theorem isBatchSeparator_alone {text piece : List Char} {here : Span} (hpiece : IsPiece text here piece)
    {l : Lexeme} {ls : List Lexeme} (htokens : lexemesFrom .tsql 0 piece = some (l :: ls))
    (hstart : l.span.start = 0) (hgo : l.token.isKeyword "GO" = false) {m : Lexeme}
    (hm : m ∈ l :: ls) : isBatchSeparator text (m.shift here.start) = isBatchSeparator piece m := by
  rcases List.mem_cons.mp hm with rfl | hlater
  · rw [isBatchSeparator, isBatchSeparator, Lexeme.shift, hgo, Bool.false_and, Bool.false_and]
  · obtain ⟨hbounds, happart⟩ := lexemesFrom_apart htokens
    have hpos := (hbounds l List.mem_cons_self).2
    have hle := (List.pairwise_cons.mp happart).1 m hlater
    obtain ⟨c, rest, rfl, hc⟩ := exists_first_char htokens hstart
    obtain ⟨before, after, rfl, rfl⟩ := hpiece
    obtain ⟨spelling, hspelling⟩ : ∃ spelling, IsPiece ([] ++ c :: rest) m.span spelling :=
      isPiece_of_mem_lexemesFrom htokens hm
    obtain ⟨pre, post, hsplit, hplace⟩ := hspelling.boundary_start
    cases pre with
    | nil =>
      rw [size_nil] at hplace
      omega
    | cons d pre =>
      rw [List.nil_append, List.cons_append, List.cons.injEq] at hsplit
      obtain ⟨rfl, rfl⟩ := hsplit
      have hline := startsLine_of_piece before hc pre post after
      simp only [List.cons_append] at hline
      simp only [isBatchSeparator, Lexeme.shift, ← hplace, List.cons_append, List.append_assoc, hline]

/-- A statement whose first token is no bare `GO` is one statement on its own, with the aliases and
the candidate tables that it has in its text, provided that it is read as the tokens that it has
there. -/
theorem statement_alone (text : List Char) {s : StatementScope} (hs : s ∈ (ofText text).statements)
    (hgo : (tokensIn text s.span).head?.any (fun l => l.token.isKeyword "GO") = false)
    (htokens : lexemes? .tsql s.span.start (slice text s.span) = some (tokensIn text s.span)) :
    ∃ alone, (ofText (slice text s.span)).statements = [alone] ∧ alone.aliases = s.aliases ∧
      alone.candidates = s.candidates := by
  obtain ⟨ls, hls, rfl⟩ := List.mem_map.mp hs
  simp only [statementScope] at hgo htokens ⊢
  have hpiece := isPiece_spanOf hls
  rw [tokensIn_spanOf hls] at hgo htokens
  obtain ⟨_, tokens, _, _, hsplits, hstatement, _⟩ := exists_piece_of_mem_cut hls
  obtain ⟨_, l, more, rest, rfl, _, hwhole⟩ := hsplits.whole_of_mem hstatement
  -- the tokens of the statement on its own are those of the text, moved to its start
  rw [lexemes?, ← Nat.add_zero (Routine.spanOf _).start, lexemesFrom_shift] at htokens
  obtain ⟨own, hown, hshift⟩ := Option.map_eq_some_iff.mp htokens
  cases own with
  | nil => cases hshift
  | cons first others =>
    have hfirst : first.shift (Routine.spanOf (l :: more)).start = l := (List.cons.inj hshift).1
    have hstart : first.span.start = 0 := by
      have hspan : (Routine.spanOf (l :: more)).start = l.span.start := rfl
      have hplace := congrArg (·.span.start) hfirst
      simp only [Lexeme.shift] at hplace
      omega
    have hword : first.token.isKeyword "GO" = false := by
      rw [← hfirst, List.head?_cons, Option.any_some] at hgo
      exact hgo
    have hsplit : (split (isBatchSeparator (slice text (Routine.spanOf (l :: more)))) (first :: others)).map
        (List.map (Lexeme.shift (Routine.spanOf (l :: more)).start)) = [l :: more] := by
      rw [← split_map (f := Lexeme.shift (Routine.spanOf (l :: more)).start) (fun _ => rfl) fun m hm =>
        isBatchSeparator_alone hpiece hown hstart hword hm, hshift, hwhole.split_eq]
    obtain ⟨found, hfound, hsame⟩ := List.map_eq_singleton_iff.mp hsplit
    refine ⟨_, by rw [ofText, cut_of_lexemes hown, hfound, List.map_singleton], ?_⟩
    have hreading : found.map (·.token) = (l :: more).map (·.token) := by
      rw [← hsame, List.map_map]
      rfl
    simp only [statementScope, hreading, and_self]

theorem statement_alone_delete :
    let text := "PRINT 1\nDELETE x FROM t x".toList
    ∃ s ∈ (ofText text).statements, s.span = ⟨8, 25⟩ ∧
      (tokensIn text s.span).head?.any (fun l => l.token.isKeyword "GO") = false ∧
      lexemes? .tsql s.span.start (slice text s.span) = some (tokensIn text s.span) ∧
      ∃ alone, (ofText (slice text s.span)).statements = [alone] ∧ alone.aliases = s.aliases ∧
        alone.candidates = s.candidates := by
  intro text
  let s := (ofText text).statements.get ⟨1, by decide +kernel⟩
  have hs : s ∈ (ofText text).statements := List.get_mem _ _
  have hgo : (tokensIn text s.span).head?.any (fun l => l.token.isKeyword "GO") = false := by
    decide +kernel
  have htokens : lexemes? .tsql s.span.start (slice text s.span) = some (tokensIn text s.span) := by
    decide +kernel
  exact ⟨s, hs, by decide +kernel, hgo, htokens, statement_alone text hs hgo htokens⟩

end FileScopes

end SqlAtlas
