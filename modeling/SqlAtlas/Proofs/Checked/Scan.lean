import SqlAtlas.Proofs.Checked.Definition
import SqlAtlas.Proofs.Checked.Usage

/-!
# No scan fails

The masked text has a place between any two bytes of a blanked character, where its text has none. But
what is found there starts and stops at characters that were not blanked, and so does the range of the
text. Definitions, scopes and references are the same with every access checked, whatever is read.
-/

namespace SqlAtlas.Checked

set_option autoImplicit false

open Text Pattern Definition

/-- A byte range that is found in the masked text: a line, a row of a block, an item of a select list,
or a keyword or a name that a pattern takes at any place. -/
inductive FoundIn (cs : List Char) : Span → Prop where
  | line {l : Text.Line} (h : l ∈ lines cs) : FoundIn cs l.span
  | row {list row : Span} (hstart : IsBoundary (Text.maskCommentsAndLiterals cs) list.start)
      (hstop : IsBoundary (Text.maskCommentsAndLiterals cs) list.stop)
      (h : row ∈ Text.splitTopLevel (Text.maskCommentsAndLiterals cs) list) : FoundIn cs row
  | item {list item : Span} (hstart : IsBoundary (Text.maskCommentsAndLiterals cs) list.start)
      (hstop : IsBoundary (Text.maskCommentsAndLiterals cs) list.stop)
      (h : item ∈ Definition.selectItems (Text.maskCommentsAndLiterals cs) list) : FoundIn cs item
  | keyword {here : Span} {rest : List Char} {word : String} {n : Nat}
      (hrest : IsPiece (Text.maskCommentsAndLiterals cs) here rest) (hword : word.toList ≠ [])
      (hblank : ' ' ∉ word.toList) (h : keyword? word rest = some n) :
      FoundIn cs (spanAfter here.start rest 0 n)
  | name {here : Span} {rest : List Char} {folded : Bool} {limit n : Nat}
      (hrest : IsPiece (Text.maskCommentsAndLiterals cs) here rest)
      (h : dottedName? folded limit rest = some n) : FoundIn cs (spanAfter here.start rest 0 n)

variable {cs : List Char} {here : Span}

/-! ### Keywords -/

theorem ne_space_of_isCaseOf {u c : Char} (hu : u ≠ ' ') (h : isCaseOf u c = true) : c ≠ ' ' := by
  rintro rfl
  have hupper : (' ').toUpper = ' ' := by decide
  simp [isCaseOf, hupper, hu.symm] at h

/-! ### Items -/

/-- The options in front of a select list go on to the end of the blanks behind them. -/
theorem head?_drop_selectOptions (chars : List Char) {c : Char}
    (h : (chars.drop (selectOptions chars)).head? = some c) : isBlank c = false := by
  obtain ⟨k, hk⟩ : ∃ k, selectOptions chars = k + blanks (chars.drop k) := by
    refine ⟨optionally quantifier? chars +
      optionally rowLimit? (chars.drop (optionally quantifier? chars)), ?_⟩
    simp only [selectOptions, optionally, chain?, optional?, blanks?, Option.bind_eq_bind,
      Option.bind_some, Option.pure_def, Option.getD_some, List.drop_drop]
    omega
  rw [hk, ← List.drop_drop] at h
  generalize chars.drop k = rest at h
  have hrest : rest.drop (blanks rest) = rest.dropWhile isBlank := by
    have hsplit : rest.takeWhile isBlank ++ rest.drop (blanks rest) =
        rest.takeWhile isBlank ++ rest.dropWhile isBlank := by
      rw [List.takeWhile_append_dropWhile]
      exact List.prefix_iff_eq_append.mp (List.takeWhile_prefix isBlank)
    exact List.append_cancel_left hsplit
  have hstop := List.head?_dropWhile_not isBlank rest
  rwa [← hrest, h] at hstop

/-! ### Ranges -/

/-- What is left of the first item behind the options of a select list. -/
theorem unmasked_behind_options {chars : List Char}
    (h : IsPiece (Text.maskCommentsAndLiterals cs) here chars) (htrimmed : Trimmed chars) :
    ∃ raw, IsPiece cs ⟨here.start + size (chars.take (selectOptions chars)), here.stop⟩ raw := by
  have hrest := h.drop (selectOptions chars)
  -- an item of nothing but options ends where they end
  cases hchars : chars.drop (selectOptions chars) with
  | nil =>
    obtain ⟨raw, hraw, _⟩ := unmasked_of_trimmed htrimmed h
    have hstop := hrest.stop_eq
    rw [hchars, size_nil, Nat.add_zero] at hstop
    simp only at hstop
    rw [← hstop]
    exact ⟨_, isPiece_of_boundaries hraw.boundary_stop hraw.boundary_stop (Nat.le_refl _)⟩
  | cons c rest =>
    obtain ⟨last, hlast, hlast'⟩ := htrimmed.last
    have hfirst : (chars.drop (selectOptions chars)).head? = some c := by rw [hchars, List.head?_cons]
    have hend : (chars.drop (selectOptions chars)).getLast? = some last := by
      rw [List.getLast?_drop, if_neg, hlast]
      intro hle
      rw [List.drop_eq_nil_of_le hle] at hchars
      cases hchars
    obtain ⟨raw, hraw, _⟩ := mask_piece hrest hfirst
      (ne_space_of_blank (by decide) (head?_drop_selectOptions chars hfirst)) hend
      (ne_space_of_blank rfl hlast')
    exact ⟨raw, hraw⟩

/-- A range that is found in the masked text lies between characters of the text. -/
theorem FoundIn.unmasked (h : FoundIn cs here) : ∃ raw, IsPiece cs here raw := by
  cases h with
  | @line l h =>
    obtain ⟨before, after, hcs, hstart⟩ := linesFrom_piece h
    rw [Nat.zero_add] at hstart
    exact ⟨l.chars, before, after, hcs, by rw [Text.Line.span, hstart]⟩
  | row hstart hstop h =>
    obtain ⟨piece, hpiece, htrimmed⟩ := isPiece_of_mem_splitTopLevel hstart hstop h
    obtain ⟨raw, hraw, _⟩ := unmasked_of_trimmed htrimmed hpiece
    exact ⟨raw, hraw⟩
  | item hstart hstop h =>
    have hrows : ∀ row ∈ Text.splitTopLevel (Text.maskCommentsAndLiterals cs) _, ∃ piece,
        IsPiece (Text.maskCommentsAndLiterals cs) row piece ∧ Trimmed piece := fun row =>
      isPiece_of_mem_splitTopLevel hstart hstop
    rw [Definition.selectItems] at h
    split at h
    · rename_i first rest hitems
      rw [hitems] at hrows
      rcases List.mem_cons.mp h with rfl | h
      · obtain ⟨piece, hpiece, htrimmed⟩ := hrows first List.mem_cons_self
        rw [hpiece.slice_eq]
        exact unmasked_behind_options hpiece htrimmed
      · obtain ⟨piece, hpiece, htrimmed⟩ := hrows _ (List.mem_cons_of_mem first h)
        obtain ⟨raw, hraw, _⟩ := unmasked_of_trimmed htrimmed hpiece
        exact ⟨raw, hraw⟩
    · cases h
  | @keyword here rest word n hrest hword hblank h =>
    obtain ⟨front, behind, rfl, rfl, hlength, hcases⟩ := word?_eq_some h
    have hfront : ∀ c ∈ front, c ≠ ' ' := by
      intro c hc
      obtain ⟨u, hu, hcase⟩ := hcases c hc
      exact ne_space_of_isCaseOf (ne_of_mem_of_not_mem hu hblank) hcase
    have hkeyword := hrest.spanAfter 0 front.length
    rw [List.drop_zero, List.take_left] at hkeyword
    have hne : front ≠ [] := by
      rintro rfl
      exact hword (List.eq_nil_of_length_eq_zero hlength.symm)
    obtain ⟨raw, hraw, _⟩ := mask_piece hkeyword (List.head?_eq_some_head hne)
      (hfront _ (List.head_mem hne)) (List.getLast?_eq_some_getLast hne) (hfront _ (List.getLast_mem hne))
    exact ⟨raw, hraw⟩
  | @name here rest folded limit n hrest h =>
    obtain ⟨word, tail, rfl, rfl, hsolid⟩ := dottedName?_eq_some h
    have hword := hrest.spanAfter 0 word.length
    rw [List.drop_zero, List.take_left] at hword
    obtain ⟨raw, hraw, _⟩ := hsolid.unmasked hword
    exact ⟨raw, hraw⟩

/-! ### Scans -/

/-- Whatever is read, no access of a scan fails: each scan gives what the plain one gives. The same
holds for the pieces between semicolons, whether or not the text has tokens as a whole. All ranges
found in the masked text are ranges between characters of the text. -/
theorem scans_succeed (uri : String) (cs : List Char) (catalog : Catalog) (limit : Nat) :
    definitions uri cs = pure (SqlAtlas.definitions uri cs) ∧
    scopes cs = pure (FileScopes.ofText cs) ∧
    (∃ c, cutAtSemicolons cs = pure c) ∧
    (∀ offset, scopeAt (FileScopes.ofText cs) offset =
      pure ((FileScopes.ofText cs).scopeAt? offset)) ∧
    extractReferences uri cs (FileScopes.ofText cs) catalog limit =
      pure (SqlAtlas.extractReferences uri cs (FileScopes.ofText cs) catalog limit) ∧
    ∀ here, FoundIn cs here → ∃ raw, IsPiece cs here raw := by
  obtain ⟨c, hcut, _⟩ := cutAtSemicolons_eq cs
  refine ⟨definitions_eq uri cs, scopes_eq cs, ⟨c, hcut⟩, ?_, ?_, ?_⟩
  · exact fun offset => scopeAt_eq _ offset
  · exact extractReferences_eq catalog limit
  · exact fun here h => h.unmasked

/-- A name behind a comment with a character of two bytes, between which only the masked text has a
place. -/
theorem scans_succeed_comment :
    IsBoundary (Text.maskCommentsAndLiterals "/*é*/dbo.t".toList) 3 ∧
      ¬IsBoundary "/*é*/dbo.t".toList 3 ∧ FoundIn "/*é*/dbo.t".toList ⟨6, 11⟩ ∧
      ∃ raw, IsPiece "/*é*/dbo.t".toList ⟨6, 11⟩ raw := by
  have hrest : IsPiece (Text.maskCommentsAndLiterals "/*é*/dbo.t".toList) ⟨6, 11⟩ "dbo.t".toList :=
    ⟨List.replicate 6 ' ', [], by decide, by decide⟩
  have hname : FoundIn "/*é*/dbo.t".toList ⟨6, 11⟩ :=
    @FoundIn.name _ _ _ false 3 5 hrest (by decide)
  refine ⟨atBoundary_iff.mp (by decide), fun h => ?_, hname, ?_⟩
  · exact absurd (atBoundary_iff.mpr h) (by decide)
  · exact (scans_succeed "a.sql" _ (fun _ _ => false) 0).2.2.2.2.2 _ hname

end SqlAtlas.Checked
