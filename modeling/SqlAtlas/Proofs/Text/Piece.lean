import Mathlib.Data.List.TakeWhile
import SqlAtlas.Pattern
import SqlAtlas.Proofs.Text.Offset

/-!
# Pieces of text

Two places between characters cut a piece out of a text. What is left of a piece after trimming, and
what a pattern takes of it, are pieces again.
-/

namespace SqlAtlas.Text

set_option autoImplicit false

/-! ### Places between characters -/

theorem takeBytes_append_dropBytes (n : Nat) (cs : List Char) :
    takeBytes n cs ++ dropBytes n cs = cs := by
  induction cs generalizing n with
  | nil => cases n <;> rfl
  | cons c cs ih =>
    cases n with
    | zero => rfl
    | succ n => rw [takeBytes, dropBytes, List.cons_append, ih]

variable {cs piece kept : List Char} {here inner : Span} {m n : Nat}

theorem isBoundary_zero (cs : List Char) : IsBoundary cs 0 := ⟨[], cs, rfl, rfl⟩

theorem isBoundary_size (cs : List Char) : IsBoundary cs (size cs) :=
  ⟨cs, [], (List.append_nil cs).symm, rfl⟩

theorem IsBoundary.le_size (h : IsBoundary cs n) : n ≤ size cs := by
  obtain ⟨l, r, rfl, rfl⟩ := h
  rw [size_append]
  exact Nat.le_add_right _ _

theorem IsBoundary.size_takeBytes (h : IsBoundary cs n) : size (takeBytes n cs) = n := by
  obtain ⟨l, r, rfl, rfl⟩ := h
  rw [takeBytes_size_append]

theorem IsBoundary.add_take (h : IsBoundary cs n) (k : Nat) :
    IsBoundary cs (n + size ((dropBytes n cs).take k)) := by
  obtain ⟨l, r, rfl, rfl⟩ := h
  rw [dropBytes_size_append]
  refine ⟨l ++ r.take k, r.drop k, ?_, size_append _ _⟩
  rw [List.append_assoc, List.take_append_drop]

/-! ### Pieces -/

theorem isPiece_whole (cs : List Char) : IsPiece cs ⟨0, size cs⟩ cs :=
  ⟨[], [], by simp, by simp⟩

theorem isPiece_of_boundaries (hm : IsBoundary cs m) (hn : IsBoundary cs n) (hle : m ≤ n) :
    IsPiece cs ⟨m, n⟩ (slice cs ⟨m, n⟩) := by
  obtain ⟨l, r, rfl, rfl⟩ := hm
  obtain ⟨l', r', hcs, rfl⟩ := hn
  obtain ⟨piece, rfl, rfl⟩ := cut_of_size_le hcs hle
  have hpiece : IsPiece (l ++ (piece ++ r')) ⟨size l, size (l ++ piece)⟩ piece :=
    ⟨l, r', rfl, by rw [size_append]⟩
  rwa [hpiece.slice_eq]

theorem IsPiece.start_le_stop (h : IsPiece cs here piece) : here.start ≤ here.stop := by
  rw [h.stop_eq]
  exact Nat.le_add_right _ _

theorem IsPiece.stop_le_size (h : IsPiece cs here piece) : here.stop ≤ size cs :=
  h.boundary_stop.le_size

theorem IsPiece.within (h : IsPiece cs here piece) (hinner : IsPiece piece inner kept) :
    IsPiece cs ⟨here.start + inner.start, here.start + inner.stop⟩ kept := by
  obtain ⟨before, after, rfl, rfl⟩ := h
  obtain ⟨before', after', rfl, rfl⟩ := hinner
  refine ⟨before ++ before', after' ++ after, by simp only [List.append_assoc], ?_⟩
  simp only [size_append, Nat.add_assoc]

theorem IsPiece.append_right (h : IsPiece cs here piece) (r : List Char) :
    IsPiece (cs ++ r) here piece := by
  obtain ⟨before, after, rfl, rfl⟩ := h
  exact ⟨before, after ++ r, by simp only [List.append_assoc], rfl⟩

/-- A piece that holds another one, and what is left of it behind that. -/
theorem IsPiece.split_at (h : IsPiece cs here piece) (hinner : IsPiece cs inner kept)
    (hstart : here.start ≤ inner.start) (hstop : inner.stop ≤ here.stop) : ∃ lead tail,
      piece = lead ++ (kept ++ tail) ∧ IsPiece cs ⟨inner.stop, here.stop⟩ tail := by
  obtain ⟨before, after, rfl, rfl⟩ := h
  obtain ⟨before', after', hcs, rfl⟩ := hinner
  obtain ⟨lead, rfl, hrest⟩ := cut_of_size_le hcs hstart
  rw [← List.append_assoc] at hrest
  obtain ⟨tail, htail, rfl⟩ := cut_of_size_le hrest.symm (by
    simp only [size_append] at hstop ⊢
    omega)
  refine ⟨lead, tail, by rw [htail, List.append_assoc], before ++ (lead ++ kept), after, ?_, ?_⟩
  · rw [htail]
    simp only [List.append_assoc]
  · rw [htail]
    simp only [size_append, Nat.add_assoc]

/-- A piece that starts within another one starts with one of its characters. -/
theorem IsPiece.mem_of_start {c : Char} {rest : List Char} (h : IsPiece cs here piece)
    (hinner : IsPiece cs inner (c :: rest)) (hstart : here.start ≤ inner.start)
    (hstop : inner.start < here.stop) : c ∈ piece := by
  obtain ⟨before, after, rfl, rfl⟩ := h
  obtain ⟨before', after', hcs, rfl⟩ := hinner
  obtain ⟨lead, rfl, hrest⟩ := cut_of_size_le hcs hstart
  rw [size_append] at hstop
  obtain ⟨mid, rfl, hmid⟩ := cut_of_size_le hrest.symm (by simp only at hstop; omega)
  cases mid with
  | nil => simp at hstop
  | cons d mid =>
    rw [(List.cons.inj hmid).1]
    exact List.mem_append_right lead List.mem_cons_self

theorem isPiece_spanAfter (skip count : Nat) (cs : List Char) :
    IsPiece cs (Pattern.spanAfter 0 cs skip count) ((cs.drop skip).take count) := by
  refine ⟨cs.take skip, (cs.drop skip).drop count, ?_, by rw [Pattern.spanAfter, Nat.zero_add]⟩
  rw [List.take_append_drop, List.take_append_drop]

theorem IsPiece.spanAfter (h : IsPiece cs here piece) (skip count : Nat) :
    IsPiece cs (Pattern.spanAfter here.start piece skip count) ((piece.drop skip).take count) := by
  have hinner := h.within (isPiece_spanAfter skip count piece)
  simpa only [Pattern.spanAfter, Nat.zero_add, Nat.add_assoc] using hinner

theorem IsPiece.spanAfter_within (h : IsPiece cs here piece) (skip count : Nat) :
    here.start ≤ (Pattern.spanAfter here.start piece skip count).start ∧
      (Pattern.spanAfter here.start piece skip count).stop ≤ here.stop := by
  have hinner := (isPiece_spanAfter skip count piece).stop_le_size
  have hstop := h.stop_eq
  simp only [Pattern.spanAfter, Nat.zero_add] at hinner ⊢
  omega

theorem IsPiece.drop (h : IsPiece cs here piece) (n : Nat) :
    IsPiece cs ⟨here.start + size (piece.take n), here.stop⟩ (piece.drop n) := by
  have hinner : IsPiece piece ⟨size (piece.take n), size piece⟩ (piece.drop n) := by
    refine ⟨piece.take n, [], by rw [List.append_nil, List.take_append_drop], ?_⟩
    rw [← size_append, List.take_append_drop]
  rw [h.stop_eq]
  exact h.within hinner

/-! ### Trimming -/

theorem utf8Size_of_isAsciiBlank {c : Char} (h : isAsciiBlank c = true) : c.utf8Size = 1 := by
  simp only [isAsciiBlank, Bool.or_eq_true, beq_iff_eq] at h
  rcases h with (((rfl | rfl) | rfl) | rfl) | rfl <;> rfl

theorem size_of_blanks {cs : List Char} (h : ∀ c ∈ cs, isAsciiBlank c = true) : size cs = cs.length := by
  induction cs with
  | nil => rfl
  | cons c cs ih =>
    rw [size_cons, utf8Size_of_isAsciiBlank (h c List.mem_cons_self),
      ih fun d hd => h d (List.mem_cons_of_mem c hd), List.length_cons, Nat.add_comm]

/-- The blanks around what trimming keeps. -/
theorem trimBy_split (blank : Char → Bool) (cs : List Char) : ∃ lead tail,
    cs = lead ++ (trimBy blank cs ++ tail) ∧ (∀ c ∈ lead, blank c = true) ∧
      (∀ c ∈ tail, blank c = true) ∧ cs.dropWhile blank = trimBy blank cs ++ tail := by
  have hback : cs.dropWhile blank =
      trimBy blank cs ++ ((cs.dropWhile blank).reverse.takeWhile blank).reverse := by
    rw [trimBy, ← List.reverse_append, List.takeWhile_append_dropWhile, List.reverse_reverse]
  refine ⟨cs.takeWhile blank, _, ?_, fun c => List.mem_takeWhile_imp, ?_, hback⟩
  · rw [← hback, List.takeWhile_append_dropWhile]
  · intro c hc
    exact List.mem_takeWhile_imp (List.mem_reverse.mp hc)

structure Trimmed (cs : List Char) : Prop where
  first : ∃ c, cs.head? = some c ∧ isAsciiBlank c = false
  last : ∃ c, cs.getLast? = some c ∧ isAsciiBlank c = false

theorem trimmed_trimBy (h : trimBy isAsciiBlank cs ≠ []) : Trimmed (trimBy isAsciiBlank cs) := by
  have hfront : ∀ (l : List Char) {c : Char}, (l.dropWhile isAsciiBlank).head? = some c →
      isAsciiBlank c = false := by
    intro l c hc
    have hstop := List.head?_dropWhile_not isAsciiBlank l
    rwa [hc] at hstop
  obtain ⟨c, rest, hcs⟩ := List.exists_cons_of_ne_nil h
  obtain ⟨lead, tail, _, _, _, hdrop⟩ := trimBy_split isAsciiBlank cs
  constructor
  · refine ⟨c, by rw [hcs, List.head?_cons], hfront cs ?_⟩
    rw [hdrop, hcs]
    rfl
  · refine ⟨_, List.getLast?_eq_some_getLast h, hfront (cs.dropWhile isAsciiBlank).reverse ?_⟩
    rw [← List.getLast?_eq_some_getLast h, trimBy, List.getLast?_reverse]

theorem IsPiece.trim (h : IsPiece cs here piece) :
    IsPiece cs (trimSpan cs here) (trimBy isAsciiBlank piece) := by
  obtain ⟨lead, tail, hpiece, hlead, htail, hrest⟩ := trimBy_split isAsciiBlank piece
  have hinner : IsPiece piece ⟨size lead, size lead + size (trimBy isAsciiBlank piece)⟩
      (trimBy isAsciiBlank piece) := ⟨lead, tail, hpiece, rfl⟩
  have hkept : ((piece.dropWhile isAsciiBlank).reverse.dropWhile isAsciiBlank).length =
      (trimBy isAsciiBlank piece).length := by rw [trimBy, List.length_reverse]
  have hlengths := congrArg List.length hpiece
  have hsizes := congrArg size hpiece
  have hstop := h.stop_eq
  have hle := h.stop_le_size
  have hleads := size_of_blanks hlead
  have htails := size_of_blanks htail
  simp only [List.length_append, size_append] at hlengths hsizes
  have hspan : trimSpan cs here = ⟨here.start + size lead,
      here.start + (size lead + size (trimBy isAsciiBlank piece))⟩ := by
    rw [trimSpan]
    simp only [Nat.min_eq_left hle, h.slice_eq, hkept, Span.mk.injEq]
    rw [hrest, List.length_append]
    omega
  rw [hspan]
  exact h.within hinner

end SqlAtlas.Text
