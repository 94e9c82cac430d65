import SqlAtlas.Name
import SqlAtlas.Proofs.Pattern
import SqlAtlas.Proofs.Text.Piece

/-!
# Where the last part of a name stands

A spelling that ends with a solid character has a last part that is not empty, and the place of
that part, without blanks and delimiters, starts within the spelling. The place of any part is a
piece of the spelling. The name of a variable starts with its sign.
-/

namespace SqlAtlas

set_option autoImplicit false

open Text Pattern

/-- The last part of a spelling that does not end with a dot: what follows some place. -/
theorem partSpansFrom_last (close : Option Char) (start offset : Nat) (cs : List Char)
    (hlast : ∃ c, cs.getLast? = some c ∧ c ≠ '.') :
    ∃ part, (partSpansFrom close start offset cs).getLast? = some part ∧
      part.stop = offset + size cs ∧
      (part.start = start ∨ ∃ before rest, cs = before ++ rest ∧ rest ≠ [] ∧
        part.start = offset + size before) := by
  induction cs generalizing close start offset with
  | nil =>
    obtain ⟨c, hc, _⟩ := hlast
    cases hc
  | cons c cs ih =>
    have hsame : ∀ close', ∃ part,
        (partSpansFrom close' start (offset + c.utf8Size) cs).getLast? = some part ∧
          part.stop = offset + size (c :: cs) ∧
          (part.start = start ∨ ∃ before rest, c :: cs = before ++ rest ∧ rest ≠ [] ∧
            part.start = offset + size before) := by
      intro close'
      cases cs with
      | nil => exact ⟨⟨start, offset + c.utf8Size⟩, rfl, rfl, .inl rfl⟩
      | cons d cs =>
        obtain ⟨part, hpart, hstop, hstart⟩ := ih close' start (offset + c.utf8Size) hlast
        refine ⟨part, hpart, by rw [hstop, size_cons c, Nat.add_assoc], hstart.imp_right ?_⟩
        rintro ⟨before, rest, hcs, hrest, heq⟩
        exact ⟨c :: before, rest, by rw [hcs]; rfl, hrest, by rw [heq, size_cons, Nat.add_assoc]⟩
    cases close with
    | some q => exact hsame _
    | none =>
      rw [partSpansFrom]
      split
      · exact hsame _
      · split
        · exact hsame _
        · split
          · rename_i hdot
            cases cs with
            | nil =>
              obtain ⟨d, hd, hne⟩ := hlast
              cases hd
              exact absurd (beq_iff_eq.mp hdot) hne
            | cons d cs =>
              -- a dot starts a new part behind it
              obtain ⟨part, hpart, hstop, hstart⟩ :=
                ih none (offset + c.utf8Size) (offset + c.utf8Size) hlast
              refine ⟨part, ?_, by rw [hstop, size_cons c, Nat.add_assoc], .inr ?_⟩
              · rw [List.getLast?_cons, hpart]
                rfl
              · rcases hstart with hstart | ⟨before, rest, hcs, hrest, heq⟩
                · exact ⟨[c], d :: cs, rfl, nofun, by rw [hstart]; rfl⟩
                · exact ⟨c :: before, rest, by rw [hcs]; rfl, hrest,
                    by rw [heq, size_cons, Nat.add_assoc]⟩
          · exact hsame _

/-- Trimming the rest of a text that ends with no blank leaves some of it, up to its end. -/
theorem trimSpan_rest (before : List Char) {rest : List Char}
    (hlast : ∃ c, rest.getLast? = some c ∧ isAsciiBlank c = false) :
    ∃ start, trimSpan (before ++ rest) ⟨size before, size (before ++ rest)⟩ =
        ⟨start, size (before ++ rest)⟩ ∧ start < size (before ++ rest) := by
  have hslice : slice (before ++ rest) ⟨size before, size (before ++ rest)⟩ = rest := by
    have hpiece := slice_append before rest []
    rwa [List.append_nil, ← size_append] at hpiece
  obtain ⟨c, hc, hblank⟩ := hlast
  obtain ⟨init, rfl⟩ := List.getLast?_eq_some_iff.mp hc
  -- the last character stops both scans
  obtain ⟨kept, hkept⟩ : ∃ kept, (init ++ [c]).dropWhile isAsciiBlank = kept ++ [c] := by
    rw [List.dropWhile_append]
    split
    · exact ⟨[], by simp [hblank]⟩
    · exact ⟨_, rfl⟩
  have hrest := List.takeWhile_append_dropWhile (p := isAsciiBlank) (l := init ++ [c])
  have hlead : size ((init ++ [c]).takeWhile isAsciiBlank) =
      ((init ++ [c]).takeWhile isAsciiBlank).length :=
    size_of_blanks fun d hd => List.mem_takeWhile_imp hd
  rw [hkept] at hrest
  have hsize := congrArg size hrest
  have hlength := congrArg List.length hrest
  have hpos := c.utf8Size_pos
  simp only [size_append, List.length_append, size_cons, size_nil, List.length_cons,
    List.length_nil] at hsize hlength hlead
  have hback : ((kept ++ [c]).reverse.dropWhile isAsciiBlank).length = (kept ++ [c]).length := by
    simp [hblank]
  refine ⟨size before + ((init ++ [c]).length - (kept ++ [c]).length), ?_, ?_⟩
  · rw [trimSpan]
    simp only [Nat.min_self, hslice, hkept, hback, Nat.sub_self, Nat.sub_zero]
  · simp only [size_append, List.length_append, size_cons, size_nil, List.length_cons,
      List.length_nil]
    omega

theorem innerSpan_rest {before rest : List Char}
    (hlast : ∃ c, rest.getLast? = some c ∧ isAsciiBlank c = false) :
    (innerSpan (before ++ rest) ⟨size before, size (before ++ rest)⟩).start < size (before ++ rest) := by
  obtain ⟨start, htrim, hstart⟩ := trimSpan_rest before hlast
  rw [innerSpan]
  simp only [htrim]
  split
  · rename_i hdelimited
    simp only [Bool.and_eq_true, decide_eq_true_eq] at hdelimited
    simp only
    omega
  · exact hstart

/-- Behind the inside of the rest of a text that ends with no blank stands a delimiter at most. -/
theorem innerSpan_tail {before rest : List Char}
    (hlast : ∃ c, rest.getLast? = some c ∧ isAsciiBlank c = false) : ∃ front tail,
      before ++ rest = front ++ tail ∧ (∀ c ∈ tail, isNameDelimiter c = true) ∧
        size front = (innerSpan (before ++ rest) ⟨size before, size (before ++ rest)⟩).stop := by
  obtain ⟨start, htrim, hstart⟩ := trimSpan_rest before hlast
  have hpiece : IsPiece (before ++ rest) ⟨size before, size (before ++ rest)⟩ rest :=
    ⟨before, [], by rw [List.append_nil], by rw [size_append]⟩
  have hkept := hpiece.trim
  rw [htrim] at hkept
  rw [innerSpan]
  simp only [htrim, hkept.slice_eq]
  split
  · rename_i hdelimited
    simp only [Bool.and_eq_true, decide_eq_true_eq, Bool.or_eq_true, beq_iff_eq] at hdelimited
    obtain ⟨lead, behind, hsplit, hspan⟩ := hkept
    -- what is kept reaches up to the end, and so does its closing delimiter
    have hend := congrArg Span.stop hspan
    simp only [hsplit, size_append] at hend
    obtain rfl := eq_nil_of_size (show size behind = 0 by omega)
    have hclose : ∃ c, (trimBy isAsciiBlank rest).getLast? = some c ∧ (c = ']' ∨ c = '"') := by
      rcases hdelimited.2 with ⟨_, hc⟩ | ⟨_, hc⟩
      · exact ⟨_, hc, .inl rfl⟩
      · exact ⟨_, hc, .inr rfl⟩
    obtain ⟨c, hc, hmark⟩ := hclose
    obtain ⟨init, hinit⟩ := List.getLast?_eq_some_iff.mp hc
    have hsize : c.utf8Size = 1 := by rcases hmark with rfl | rfl <;> rfl
    refine ⟨lead ++ init, [c], ?_, ?_, ?_⟩
    · rw [hsplit, hinit, List.append_nil, List.append_assoc]
    · intro d hd
      rw [List.mem_singleton.mp hd]
      rcases hmark with rfl | rfl <;> rfl
    · rw [hsplit, hinit]
      simp only [size_append, size_cons, size_nil, hsize]
      omega
  · exact ⟨before ++ rest, [], (List.append_nil _).symm, nofun, rfl⟩

theorem partSpans_getLast? {raw : List Char} (hlast : ∃ c, raw.getLast? = some c ∧ isSolid c = true) :
    ∃ before rest, raw = before ++ rest ∧ (∃ c, rest.getLast? = some c ∧ isAsciiBlank c = false) ∧
      (partSpans raw).getLast? = some (innerSpan raw ⟨size before, size raw⟩) := by
  obtain ⟨c, hc, hsolid⟩ := hlast
  simp only [isSolid, Bool.and_eq_true, Bool.not_eq_true', bne_iff_ne] at hsolid
  obtain ⟨part, hpart, hstop, hstart⟩ := partSpansFrom_last none 0 0 raw ⟨c, hc, hsolid.2⟩
  obtain ⟨before, rest, hraw, hrest, hbefore⟩ : ∃ before rest, raw = before ++ rest ∧ rest ≠ [] ∧
      part.start = size before := by
    rcases hstart with hstart | ⟨before, rest, hraw, hrest, heq⟩
    · refine ⟨[], raw, rfl, ?_, hstart⟩
      rintro rfl
      cases hc
    · exact ⟨before, rest, hraw, hrest, by rw [heq, Nat.zero_add]⟩
  refine ⟨before, rest, hraw, ⟨c, ?_, hsolid.1⟩, ?_⟩
  · rw [hraw, List.getLast?_append, List.getLast?_eq_some_getLast hrest] at hc
    rw [List.getLast?_eq_some_getLast hrest]
    exact hc
  · rw [Nat.zero_add] at hstop
    rw [partSpans, List.getLast?_map, hpart, Option.map_some, ← hbefore, ← hstop]

theorem partSpans_last {raw : List Char} (hlast : ∃ c, raw.getLast? = some c ∧ isSolid c = true) :
    ∃ part, (partSpans raw).getLast? = some part ∧ part.start < size raw := by
  obtain ⟨before, rest, rfl, hend, hpart⟩ := partSpans_getLast? hlast
  exact ⟨_, hpart, innerSpan_rest hend⟩

theorem partSpans_tail {raw : List Char} (hlast : ∃ c, raw.getLast? = some c ∧ isSolid c = true)
    {part : Span} (h : (partSpans raw).getLast? = some part) : ∃ front tail, raw = front ++ tail ∧
      (∀ c ∈ tail, isNameDelimiter c = true) ∧ size front = part.stop := by
  obtain ⟨before, rest, rfl, hend, hpart⟩ := partSpans_getLast? hlast
  rw [hpart] at h
  cases h
  exact innerSpan_tail hend

theorem innerSpan_stop_le (raw : List Char) (part : Span) : (innerSpan raw part).stop ≤ size raw := by
  have htrim : (trimSpan raw part).stop ≤ size raw :=
    Nat.le_trans (Nat.sub_le _ _) (Nat.min_le_right _ _)
  rw [innerSpan]
  split
  · exact Nat.le_trans (Nat.sub_le _ _) htrim
  · exact htrim

/-! ### Parts are pieces -/

theorem isPiece_of_mem_partSpansFrom {close : Option Char} {start : Nat} {before rest : List Char}
    (hstart : IsBoundary (before ++ rest) start) (hle : start ≤ size before) {part : Span}
    (h : part ∈ partSpansFrom close start (size before) rest) :
    ∃ piece, IsPiece (before ++ rest) part piece := by
  induction rest generalizing close start before with
  | nil =>
    cases List.mem_singleton.mp h
    rw [List.append_nil] at hstart ⊢
    exact ⟨_, isPiece_of_boundaries hstart (isBoundary_size before) hle⟩
  | cons c rest ih =>
    have hnext : size before + c.utf8Size = size (before ++ [c]) := by simp
    have hsplit : before ++ c :: rest = before ++ [c] ++ rest := by simp
    have hsame : ∀ close', part ∈ partSpansFrom close' start (size before + c.utf8Size) rest →
        ∃ piece, IsPiece (before ++ c :: rest) part piece := by
      intro close' h
      rw [hnext] at h
      rw [hsplit] at hstart ⊢
      exact ih hstart (by rw [← hnext]; omega) h
    cases close with
    | some q => exact hsame _ h
    | none =>
      rw [partSpansFrom] at h
      split at h
      · exact hsame _ h
      · split at h
        · exact hsame _ h
        · split at h
          · rcases List.mem_cons.mp h with rfl | h
            · exact ⟨_, isPiece_of_boundaries hstart ⟨before, c :: rest, rfl, rfl⟩ hle⟩
            · -- the next part starts behind the dot
              rw [hnext] at h
              rw [hsplit]
              exact ih ⟨before ++ [c], rest, rfl, rfl⟩ (Nat.le_refl _) h
          · exact hsame _ h

theorem isPiece_innerSpan {raw piece : List Char} {part : Span} (h : IsPiece raw part piece) :
    ∃ kept, IsPiece raw (innerSpan raw part) kept := by
  have htrim := h.trim
  rw [innerSpan]
  simp only [htrim.slice_eq]
  split
  · rename_i hdelimited
    simp only [Bool.and_eq_true, decide_eq_true_eq, Bool.or_eq_true, beq_iff_eq] at hdelimited
    obtain ⟨hsize, hends⟩ := hdelimited
    generalize trimBy isAsciiBlank piece = kept at htrim hends
    have hstop := htrim.stop_eq
    -- the two delimiters are different characters of one byte each
    obtain ⟨first, last, rfl⟩ : ∃ first last, kept = first :: last := by
      cases kept with
      | nil => rcases hends with ⟨hfirst, _⟩ | ⟨hfirst, _⟩ <;> cases hfirst
      | cons first last => exact ⟨first, last, rfl⟩
    obtain ⟨mid, close, rfl⟩ : ∃ mid close, last = mid ++ [close] := by
      rcases List.eq_nil_or_concat last with rfl | h
      · rcases hends with ⟨hfirst, hlast⟩ | ⟨hfirst, hlast⟩
        · cases hfirst
          cases hlast
        · cases hfirst
          simp only [size_cons, size_nil] at hstop
          have hone : '"'.utf8Size = 1 := rfl
          omega
      · simpa only [List.concat_eq_append] using h
    have hones : first.utf8Size = 1 ∧ close.utf8Size = 1 := by
      rcases hends with ⟨hfirst, hlast⟩ | ⟨hfirst, hlast⟩ <;>
        · rw [List.head?_cons, Option.some.injEq] at hfirst
          rw [← List.cons_append, List.getLast?_concat, Option.some.injEq] at hlast
          rw [hfirst, hlast]
          decide
    refine ⟨mid, ?_⟩
    have hinner : IsPiece (first :: (mid ++ [close])) ⟨1, 1 + size mid⟩ mid :=
      ⟨[first], [close], rfl, by simp [hones.1]⟩
    have hwithin := htrim.within hinner
    simp only [size_cons, size_append, size_nil, hones.1, hones.2] at hstop
    rwa [show (trimSpan raw part).start + (1 + size mid) = (trimSpan raw part).stop - 1 by omega]
      at hwithin
  · exact ⟨_, htrim⟩

theorem isPiece_of_mem_partSpans {raw : List Char} {part : Span} (h : part ∈ partSpans raw) :
    ∃ kept, IsPiece raw part kept := by
  obtain ⟨whole, hwhole, rfl⟩ := List.mem_map.mp h
  obtain ⟨piece, hpiece⟩ : ∃ piece, IsPiece ([] ++ raw) whole piece :=
    isPiece_of_mem_partSpansFrom (isBoundary_zero ([] ++ raw)) (Nat.zero_le (size [])) hwhole
  exact isPiece_innerSpan hpiece

/-! ### Variables -/

theorem trimBy_cons (blank : Char → Bool) {c : Char} (hc : blank c = false) (cs : List Char) :
    ∃ rest, trimBy blank (c :: cs) = c :: rest := by
  rw [trimBy, List.dropWhile_cons_of_neg (by simp [hc]), List.reverse_cons, List.dropWhile_append]
  split
  · exact ⟨[], by simp [hc]⟩
  · exact ⟨_, by rw [List.reverse_append]; rfl⟩

/-- The name of a spelling that starts with an at sign does so too. -/
theorem head?_normalizeName_at (cs : List Char) : (normalizeName ('@' :: cs)).head? = some '@' := by
  obtain ⟨part, parts, hsplit⟩ : ∃ part parts, splitOnChar '.' ('@' :: cs) = ('@' :: part) :: parts := by
    rw [splitOnChar]
    split
    · rename_i hdot
      exact absurd hdot (by decide)
    · split
      · exact ⟨_, _, rfl⟩
      · exact ⟨_, _, rfl⟩
  obtain ⟨lowered, hlowered⟩ : ∃ lowered, lower (unwrapIdentifier ('@' :: part)) = '@' :: lowered := by
    obtain ⟨a, ha⟩ := trimBy_cons isBlank (show isBlank '@' = false by decide) part
    obtain ⟨b, hb⟩ := trimBy_cons isNameDelimiter (show isNameDelimiter '@' = false by decide) a
    obtain ⟨c, hc⟩ := trimBy_cons isBlank (show isBlank '@' = false by decide) b
    rw [unwrapIdentifier, trim, trim, ha, hb, hc]
    exact ⟨_, rfl⟩
  have hjoin : ∀ parts, (joinWithChar '.' (('@' :: lowered) :: parts)).head? = some '@' := by
    intro parts
    cases parts <;> rfl
  rw [normalizeName]
  simp only [hsplit, List.map_cons, hlowered]
  rw [if_neg (by simp)]
  split
  · rename_i schema object hparts
    have hschema : '@' :: lowered = schema := (List.cons.inj hparts).1
    rw [if_neg (by simp [← hschema, defaultSchema])]
    exact hjoin _
  · exact hjoin _

end SqlAtlas
