import SqlAtlas.Definition
import SqlAtlas.Proofs.Pattern
import SqlAtlas.Proofs.Text.Block

/-!
# Where definitions and their columns stand

The name of a header and the names of columns are solid pieces of the masked text. The text of a
definition stops between characters, and the rows of its block and the items of its select list are
pieces.
-/

namespace SqlAtlas.Definition

set_option autoImplicit false

open Text Pattern

variable {masked : List Char}

/-! ### Headers -/

theorem header?_eq_some {prev : Option Char} {cs kind : List Char} {start n more : Nat}
    (h : header? prev cs = some ((kind, start, n), more)) :
    ∃ word tail, cs.drop start = word ++ tail ∧ n = word.length ∧ Solid word := by
  simp only [header?, Option.bind_eq_bind] at h
  split at h
  · cases h
  · obtain ⟨a, _, h⟩ := Option.bind_eq_some_iff.mp h
    obtain ⟨k, _, h⟩ := Option.bind_eq_some_iff.mp h
    obtain ⟨s, _, h⟩ := Option.bind_eq_some_iff.mp h
    obtain ⟨m, hm, h⟩ := Option.bind_eq_some_iff.mp h
    cases h
    exact dottedName?_eq_some hm

theorem solid_of_mem_headers {h : Found Header} (hh : h ∈ headers masked) :
    IsBoundary masked h.offset ∧ ∃ word, IsPiece masked h.value.name word ∧ Solid word := by
  obtain ⟨f, hf, rfl⟩ := List.mem_map.mp hh
  obtain ⟨before, rest, prev, more, rfl, hoffset, hfound⟩ := findAllFrom_piece hf
  rw [Nat.zero_add] at hoffset
  obtain ⟨word, tail, hdrop, hcount, hsolid⟩ := header?_eq_some hfound
  have hpiece : IsPiece (before ++ rest) ⟨size before, size before + size rest⟩ rest :=
    ⟨before, [], by rw [List.append_nil], rfl⟩
  have hname := hpiece.spanAfter f.value.2.1 f.value.2.2
  rw [hdrop, hcount, List.take_left] at hname
  refine ⟨⟨before, rest, rfl, hoffset.symm⟩, word, ?_, hsolid⟩
  simp only [hoffset, dropBytes_size_append, hcount]
  exact hname

theorem isBoundary_of_mem_boundaries {b : Nat} (hb : b ∈ boundaries masked) : IsBoundary masked b := by
  rcases List.mem_append.mp hb with hb | hb
  · obtain ⟨h, hh, rfl⟩ := List.mem_map.mp hb
    exact (solid_of_mem_headers hh).1
  · obtain ⟨l, hl, rfl⟩ := List.mem_map.mp hb
    obtain ⟨before, after, hmasked, hstart⟩ := linesFrom_piece (List.mem_filter.mp hl).1
    exact ⟨before, _, hmasked, by rw [hstart, Nat.zero_add]⟩

theorem isBoundary_statementEnd {bounds : List Nat} (hbounds : ∀ b ∈ bounds, IsBoundary masked b)
    (start : Nat) : IsBoundary masked (statementEnd masked bounds start) := by
  rw [statementEnd]
  cases hmin : (bounds.filter fun b => decide (start < b)).min? with
  | none => exact isBoundary_size masked
  | some b => exact hbounds b (List.mem_filter.mp (List.min?_mem hmin)).1

/-! ### Rows -/

theorem isBoundary_skipBlanks {start : Nat} (h : IsBoundary masked start) :
    IsBoundary masked (skipBlanks masked start) := by
  obtain ⟨l, r, rfl, rfl⟩ := h
  rw [skipBlanks, dropBytes_size_append]
  refine ⟨l ++ r.takeWhile isAsciiBlank, r.dropWhile isAsciiBlank, ?_, ?_⟩
  · rw [List.append_assoc, List.takeWhile_append_dropWhile]
  · rw [size_append, size_of_blanks fun c => List.mem_takeWhile_imp]

theorem isPiece_of_blockRows? {start : Nat} {rows : List Span} (hstart : IsBoundary masked start)
    (h : blockRows? masked start = some rows) {row : Span} (hrow : row ∈ rows) :
    ∃ piece, IsPiece masked row piece := by
  rw [blockRows?] at h
  split at h
  · rename_i hopen
    cases h
    have hinside := (standsAt_of_charAt? (beq_iff_eq.mp hopen) hstart).boundary_after
    have hstop : IsBoundary masked ((matchingParen? masked start).getD (size masked)) := by
      cases hclose : matchingParen? masked start with
      | none => exact isBoundary_size masked
      | some i => exact isBoundary_matchingParen? hstart hclose
    obtain ⟨piece, hpiece, _⟩ := isPiece_of_mem_splitTopLevel hinside hstop hrow
    exact ⟨piece, hpiece⟩
  · cases h

theorem solid_leading {piece : List Char} {row : Span} (hrow : IsPiece masked row piece) {n : Nat}
    (hn : identifier? false piece = some n) :
    IsPiece masked (spanAfter row.start piece 0 n) (piece.take n) ∧ Solid (piece.take n) := by
  obtain ⟨word, rest, rfl, rfl, hsolid⟩ := identifier?_eq_some hn
  have hname := hrow.spanAfter 0 word.length
  rw [List.drop_zero, List.take_left] at hname
  rw [List.take_left]
  exact ⟨hname, hsolid⟩

theorem leading?_eq_some {row name : Span} {piece : List Char} (hrow : IsPiece masked row piece)
    (h : leading? masked row = some name) :
    row.start ≤ name.start ∧ name.stop ≤ row.stop ∧ ∃ word, IsPiece masked name word ∧ Solid word := by
  rw [leading?, hrow.slice_eq] at h
  obtain ⟨n, hn, rfl⟩ := Option.map_eq_some_iff.mp h
  obtain ⟨hfirst, hlast⟩ := hrow.spanAfter_within 0 n
  exact ⟨hfirst, hlast, _, solid_leading hrow hn⟩

/-! ### Items of a select list -/

theorem namedAlias?_eq_some {prev : Option Char} {skip start count : Nat} {cs : List Char}
    (h : namedAlias? prev skip cs = some (start, count)) :
    ∃ k, start = skip + k ∧ identifier? true (cs.drop k) = some count := by
  induction cs generalizing prev skip with
  | nil => cases h
  | cons c cs ih =>
    rw [namedAlias?, Option.orElse_eq_orElse, Option.orElse_eq_or, Option.or_eq_some_iff] at h
    rcases h with h | ⟨_, h⟩
    · simp only [Option.bind_eq_bind] at h
      split at h
      · cases h
      · obtain ⟨a, _, h⟩ := Option.bind_eq_some_iff.mp h
        obtain ⟨n, hn, h⟩ := Option.bind_eq_some_iff.mp h
        split at h
        · cases h
          exact ⟨a, rfl, hn⟩
        · cases h
    · obtain ⟨k, rfl, hk⟩ := ih h
      exact ⟨k + 1, by omega, hk⟩

theorem trailingName?_eq_some {skip start count : Nat} {cs : List Char}
    (h : trailingName? skip cs = some (start, count)) :
    ∃ k, start = skip + k ∧ identifier? false (cs.drop k) = some count := by
  induction cs generalizing skip with
  | nil => cases h
  | cons c cs ih =>
    have hlater : trailingName? (skip + 1) cs = some (start, count) →
        ∃ k, start = skip + k ∧ identifier? false ((c :: cs).drop k) = some count := by
      intro h
      obtain ⟨k, rfl, hk⟩ := ih h
      exact ⟨k + 1, by omega, hk⟩
    rw [trailingName?] at h
    split at h
    · rename_i n hn
      split at h
      · cases h
        exact ⟨0, rfl, hn⟩
      · exact hlater h
    · exact hlater h

theorem outputName?_eq_some {item name : Span} {piece : List Char} (hitem : IsPiece masked item piece)
    (h : outputName? masked item = some name) :
    item.start ≤ name.start ∧ name.stop ≤ item.stop ∧ ∃ word, IsPiece masked name word ∧ Solid word := by
  simp only [outputName?, hitem.slice_eq, Option.bind_eq_bind] at h
  obtain ⟨⟨skip, count⟩, hfound, h⟩ := Option.bind_eq_some_iff.mp h
  obtain ⟨folded, hword⟩ : ∃ folded, identifier? folded (piece.drop skip) = some count := by
    simp only [Option.orElse_eq_orElse, Option.orElse_eq_or, Option.or_eq_some_iff] at hfound
    rcases hfound with hfound | ⟨_, hfound | ⟨_, hfound⟩⟩
    · simp only [assignedName?, Option.bind_eq_bind] at hfound
      obtain ⟨n, hn, hfound⟩ := Option.bind_eq_some_iff.mp hfound
      split at hfound
      · cases hfound
        exact ⟨false, hn⟩
      · cases hfound
    · obtain ⟨k, rfl, hk⟩ := namedAlias?_eq_some hfound
      exact ⟨true, by rwa [Nat.zero_add]⟩
    · obtain ⟨k, rfl, hk⟩ := trailingName?_eq_some hfound
      exact ⟨false, by rwa [Nat.zero_add]⟩
  obtain ⟨word, tail, hdrop, hcount, hsolid⟩ := identifier?_eq_some hword
  split at h
  · cases h
  · cases h
    have hname := hitem.spanAfter skip count
    rw [hdrop, hcount, List.take_left, ← hcount] at hname
    obtain ⟨hfirst, hlast⟩ := hitem.spanAfter_within skip count
    exact ⟨hfirst, hlast, word, hname, hsolid⟩

theorem selectList?_eq_some {body list : Span} (hstart : IsBoundary masked body.start)
    (hstop : IsBoundary masked body.stop) (h : selectList? masked body = some list) :
    IsBoundary masked list.start ∧ IsBoundary masked list.stop ∧ body.start < list.start ∧
      list.stop ≤ body.stop := by
  simp only [selectList?, Option.bind_eq_bind] at h
  obtain ⟨a, ha, h⟩ := Option.bind_eq_some_iff.mp h
  obtain ⟨s, hs, h⟩ := Option.bind_eq_some_iff.mp h
  cases h
  obtain ⟨_, hafter, has, _⟩ := findTopLevelWord?_eq_some hstart ha
  obtain ⟨_, hselect, hfirst, _⟩ :=
    findTopLevelWord?_eq_some (s := ⟨a + 2, body.stop⟩) hafter hs
  have hend : IsBoundary masked ((findTopLevelWord? masked ⟨s + 6, body.stop⟩ "FROM".toList).getD body.stop) ∧
      (findTopLevelWord? masked ⟨s + 6, body.stop⟩ "FROM".toList).getD body.stop ≤ body.stop := by
    cases hfrom : findTopLevelWord? masked ⟨s + 6, body.stop⟩ "FROM".toList with
    | none => exact ⟨hstop, Nat.le_refl _⟩
    | some f =>
      obtain ⟨hbefore, _, _, hlast⟩ :=
        findTopLevelWord?_eq_some (s := ⟨s + 6, body.stop⟩) hselect hfrom
      exact ⟨hbefore, (Nat.le_add_right _ _).trans hlast⟩
  refine ⟨hselect, hend.1, ?_, hend.2⟩
  simp only at hfirst ⊢
  omega

theorem isPiece_of_mem_selectItems {list item : Span} (hstart : IsBoundary masked list.start)
    (hstop : IsBoundary masked list.stop) (h : item ∈ selectItems masked list) :
    ∃ piece, IsPiece masked item piece := by
  rw [selectItems] at h
  split at h
  · rename_i first rest hitems
    have hpieces : ∀ t ∈ first :: rest, ∃ piece, IsPiece masked t piece ∧ Trimmed piece := by
      rw [← hitems]
      exact fun t => isPiece_of_mem_splitTopLevel hstart hstop
    rcases List.mem_cons.mp h with rfl | h
    · obtain ⟨piece, hpiece, _⟩ := hpieces first List.mem_cons_self
      rw [hpiece.slice_eq]
      exact ⟨_, hpiece.drop _⟩
    · obtain ⟨piece, hpiece, _⟩ := hpieces item (List.mem_cons_of_mem first h)
      exact ⟨piece, hpiece⟩
  · cases h

theorem mem_selectItems_within {list item : Span} (hstart : IsBoundary masked list.start)
    (h : item ∈ selectItems masked list) : list.start ≤ item.start ∧ item.stop ≤ list.stop := by
  rw [selectItems] at h
  split at h
  · rename_i first rest hitems
    have hrows : ∀ t ∈ first :: rest, list.start ≤ t.start ∧ t.stop ≤ list.stop := by
      rw [← hitems]
      exact fun t => mem_splitTopLevel_within hstart
    rcases List.mem_cons.mp h with rfl | h
    · obtain ⟨hfirst, hlast⟩ := hrows first List.mem_cons_self
      exact ⟨hfirst.trans (Nat.le_add_right _ _), hlast⟩
    · exact hrows item (List.mem_cons_of_mem first h)
  · cases h

end SqlAtlas.Definition
