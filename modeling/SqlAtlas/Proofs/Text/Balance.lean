import SqlAtlas.Proofs.Text.Code
import SqlAtlas.Proofs.Text.Row

/-!
# Blocks and rows, byte by byte

A block ends at the first byte of plain code up to which as many parentheses are closed as opened, and
its rows are what its separators leave. A search in the bytes of a text and a search in its characters
find the same blocks and the same rows.
-/

namespace SqlAtlas.Text

set_option autoImplicit false

namespace Byte

/-! ### Parentheses -/

/-- How often a byte stands in some code up to a place, the place included. -/
def countUpTo (b : UInt8) (code : List (Nat × UInt8)) (i : Nat) : Nat :=
  code.countP fun p => decide (p.1 ≤ i) && p.2 == b

/-- The first place of some code up to which as many parentheses are closed as opened, `depth` of them in
front of the code. -/
structure Closes (depth : Nat) (code : List (Nat × UInt8)) (c : Nat) : Prop where
  found : ∃ b, (c, b) ∈ code
  balanced : depth + countUpTo '('.toUInt8 code c = countUpTo ')'.toUInt8 code c
  first : ∀ p ∈ code, p.1 < c →
    depth + countUpTo '('.toUInt8 code p.1 ≠ countUpTo ')'.toUInt8 code p.1

section

variable {bytes : List UInt8} {depth i c start : Nat} {a b : UInt8} {code : List (Nat × UInt8)}

theorem countUpTo_cons (h : i ≤ c) :
    countUpTo a ((i, b) :: code) c = (if b = a then 1 else 0) + countUpTo a code c := by
  rw [countUpTo, List.countP_cons, ← countUpTo, Nat.add_comm]
  simp [h]

theorem countUpTo_eq_zero (h : ∀ p ∈ code, c < p.1) : countUpTo a code c = 0 := by
  rw [countUpTo, List.countP_eq_zero]
  intro p hp
  simp [Nat.not_le.mpr (h p hp)]

/-- What the first byte of some code leaves to close, unless it closes everything. -/
theorem closes_cons {depth' : Nat} (hcode : Ascending ((i, b) :: code))
    (hopen : depth + (if b = '('.toUInt8 then 1 else 0) ≠ if b = ')'.toUInt8 then 1 else 0)
    (hdepth : depth' + (if b = ')'.toUInt8 then 1 else 0) = depth + if b = '('.toUInt8 then 1 else 0) :
    Closes depth ((i, b) :: code) c ↔ Closes depth' code c := by
  obtain ⟨hlater, -⟩ := List.pairwise_cons.mp hcode
  have hhere : ∀ a, countUpTo a code i = 0 := fun a => countUpTo_eq_zero hlater
  constructor
  · intro h
    obtain ⟨b', hmem⟩ := h.found
    have hbalanced := h.balanced
    rcases List.mem_cons.mp hmem with heq | hmem
    · cases heq
      rw [countUpTo_cons (Nat.le_refl _), countUpTo_cons (Nat.le_refl _), hhere, hhere] at hbalanced
      exact absurd hbalanced hopen
    · have hlt : i < c := hlater _ hmem
      rw [countUpTo_cons hlt.le, countUpTo_cons hlt.le] at hbalanced
      refine ⟨⟨b', hmem⟩, by omega, fun p hp hpc => ?_⟩
      have hfirst := h.first p (List.mem_cons_of_mem _ hp) hpc
      rw [countUpTo_cons (hlater p hp).le, countUpTo_cons (hlater p hp).le] at hfirst
      omega
  · intro h
    obtain ⟨b', hmem⟩ := h.found
    have hlt : i < c := hlater _ hmem
    have hbalanced := h.balanced
    refine ⟨⟨b', List.mem_cons_of_mem _ hmem⟩, ?_, ?_⟩
    · rw [countUpTo_cons hlt.le, countUpTo_cons hlt.le]
      omega
    · rintro p hp hpc
      rcases List.mem_cons.mp hp with rfl | hp
      · rwa [countUpTo_cons (Nat.le_refl _), countUpTo_cons (Nat.le_refl _), hhere, hhere]
      · have hfirst := h.first p hp hpc
        rw [countUpTo_cons (hlater p hp).le, countUpTo_cons (hlater p hp).le]
        omega

theorem closes_opening (hcode : Ascending ((i, '('.toUInt8) :: code)) :
    Closes depth ((i, '('.toUInt8) :: code) c ↔ Closes (depth + 1) code c := by
  have hcloses : '('.toUInt8 ≠ ')'.toUInt8 := by decide
  refine closes_cons hcode ?_ ?_
  · rw [if_pos rfl, if_neg hcloses]
    exact Nat.succ_ne_zero depth
  · rw [if_pos rfl, if_neg hcloses, Nat.add_zero]

theorem closes_head (hcode : Ascending ((i, ')'.toUInt8) :: code)) :
    Closes 1 ((i, ')'.toUInt8) :: code) c ↔ c = i := by
  obtain ⟨hlater, -⟩ := List.pairwise_cons.mp hcode
  have hhere : 1 + countUpTo '('.toUInt8 ((i, ')'.toUInt8) :: code) i =
      countUpTo ')'.toUInt8 ((i, ')'.toUInt8) :: code) i := by
    rw [countUpTo_cons (Nat.le_refl _), countUpTo_cons (Nat.le_refl _), countUpTo_eq_zero hlater,
      countUpTo_eq_zero hlater]
    rfl
  constructor
  · intro h
    obtain ⟨b', hmem⟩ := h.found
    rcases List.mem_cons.mp hmem with heq | hmem
    · cases heq
      rfl
    · exact absurd hhere (h.first _ List.mem_cons_self (hlater _ hmem))
  · rintro rfl
    refine ⟨⟨_, List.mem_cons_self⟩, hhere, ?_⟩
    rintro p hp hpc
    rcases List.mem_cons.mp hp with rfl | hp
    · exact absurd hpc (Nat.lt_irrefl _)
    · exact absurd hpc (Nat.lt_asymm (hlater p hp))

theorem closingIn_eq_some_iff (hcode : Ascending code) (hdepth : 1 ≤ depth) :
    closingIn depth code = some c ↔ Closes depth code c := by
  induction code generalizing depth with
  | nil => exact ⟨nofun, fun h => nomatch h.found⟩
  | cons p code ih =>
    obtain ⟨i, b⟩ := p
    have hrest := (List.pairwise_cons.mp hcode).2
    rw [closingIn]
    by_cases hopens : b = '('.toUInt8
    · subst hopens
      rw [if_pos (beq_self_eq_true _), ih hrest (Nat.le_add_left 1 depth)]
      exact (closes_opening hcode).symm
    · rw [if_neg (by simpa using hopens)]
      by_cases hcloses : b = ')'.toUInt8
      · subst hcloses
        rw [if_pos (beq_self_eq_true _)]
        by_cases hlast : depth = 1
        · subst hlast
          rw [closes_head hcode, if_pos (by decide), Option.some.injEq, eq_comm]
        · rw [if_neg (by simp; omega), ih hrest (by omega)]
          refine (closes_cons hcode ?_ ?_).symm
          · rw [if_neg hopens, if_pos rfl]
            exact hlast
          · rw [if_neg hopens, if_pos rfl]
            omega
      · rw [if_neg (by simpa using hcloses), ih hrest hdepth]
        refine (closes_cons hcode ?_ ?_).symm
        · rw [if_neg hopens, if_neg hcloses]
          omega
        · rw [if_neg hopens, if_neg hcloses]

theorem codeIn_at_paren (h : bytes[start]? = some '('.toUInt8) :
    ∃ rest, codeIn bytes ⟨start, bytes.length⟩ = (start, '('.toUInt8) :: rest := by
  obtain ⟨hstart, hbyte⟩ := List.getElem?_eq_some_iff.mp h
  have hturn : ∀ next, codeTurn .code '('.toUInt8 next = ⟨.code, false, true⟩ := fun _ => rfl
  rw [codeIn, List.drop_eq_getElem_cons hstart, hbyte, scan_single (by rw [hturn]), hturn, marked,
    if_pos rfl, List.takeWhile_cons_of_pos (by simpa using hstart)]
  exact ⟨_, rfl⟩

theorem matchingParen?_eq_some_iff : matchingParen? bytes start = some c ↔
    bytes[start]? = some '('.toUInt8 ∧ Closes 0 (codeIn bytes ⟨start, bytes.length⟩) c := by
  rw [matchingParen?]
  by_cases h : bytes[start]? = some '('.toUInt8
  · have hcode := codeIn_ascending bytes ⟨start, bytes.length⟩
    obtain ⟨rest, hrest⟩ := codeIn_at_paren h
    rw [hrest] at hcode ⊢
    rw [if_pos (by simpa using h), closingIn, if_pos (beq_self_eq_true _),
      closingIn_eq_some_iff (List.pairwise_cons.mp hcode).2 (Nat.le_refl 1),
      closes_opening hcode]
    exact (and_iff_right h).symm
  · rw [if_neg (by simpa using h)]
    constructor
    · intro hnone
      cases hnone
    · rintro ⟨hparen, -⟩
      exact absurd hparen h

end

/-! ### Rows of bytes and of characters -/

theorem commasIn_of_beyond {bs : List (Nat × UInt8)} (hbs : ∀ p ∈ bs, 128 ≤ p.2) (depth : Nat)
    (rest : List (Nat × UInt8)) : commasIn depth (bs ++ rest) = commasIn depth rest := by
  induction bs with
  | nil => rfl
  | cons p bs ih =>
    have hne : ∀ a : Char, isAscii a → p.2 ≠ a.toUInt8 := fun a ha =>
      ne_of_ge (hbs p List.mem_cons_self) ha
    have hlevel : levelAfter depth p.2 = depth := by
      rw [levelAfter, if_neg (by simpa using hne '(' rfl), if_neg (by simpa using hne ')' rfl)]
    rw [List.cons_append, commasIn, if_neg (by simp [hne ',' rfl]), hlevel,
      ih fun q hq => hbs q (List.mem_cons_of_mem p hq)]

theorem commasIn_located (depth : Nat) (ps : List (Nat × Char)) :
    commasIn depth (ps.flatMap located) = Text.commasIn depth ps := by
  induction ps generalizing depth with
  | nil => rfl
  | cons p ps ih =>
    obtain ⟨i, c⟩ := p
    rw [List.flatMap_cons]
    cases hc : isAscii c with
    | false =>
      have hne : c ≠ '(' ∧ c ≠ ')' ∧ c ≠ ',' := by
        refine ⟨?_, ?_, ?_⟩ <;> rintro rfl <;> cases hc
      rw [commasIn_of_beyond (located_beyond hc i), ih, Text.commasIn, if_neg (by simp [hne.2.2])]
      simp [depthAfter, hne]
    | true =>
      have hlevel : levelAfter depth (lead c) = depthAfter depth c := by
        simp only [levelAfter, depthAfter, beq_iff_eq, lead_eq_iff (show isAscii '(' from rfl),
          lead_eq_iff (show isAscii ')' from rfl)]
      rw [located_of_isAscii hc, ← lead_of_isAscii hc, List.singleton_append, commasIn, Text.commasIn,
        hlevel, ih, ih]
      simp only [Bool.and_eq_true, beq_iff_eq, lead_eq_iff (show isAscii ',' from rfl)]

theorem takeWhile_append_of_neg {α : Type} {p : α → Bool} {as bs : List α} (has : ∀ a ∈ as, p a = true)
    (hbs : ∀ b ∈ bs, p b = false) : (as ++ bs).takeWhile p = as := by
  rw [List.takeWhile_append_of_pos has]
  cases bs with
  | nil => exact List.append_nil as
  | cons b bs =>
    rw [List.takeWhile_cons_of_neg (by simp [hbs b List.mem_cons_self]), List.append_nil]

/-- A search in a range finds the bytes of the characters of code that it finds there. -/
theorem codeIn_piece {cs piece : List Char} {s : Span} (h : IsPiece cs s piece) :
    codeIn (utf8Bytes cs) s = (Text.codeIn cs s).flatMap located := by
  obtain ⟨l, r, rfl, rfl⟩ := h
  have hscan := follows_codeTurn.scan_utf8Bytes (r := .code) nofun (piece ++ r)
  have hdrop : (utf8Bytes (l ++ (piece ++ r))).drop (size l) = utf8Bytes (piece ++ r) := by
    rw [utf8Bytes_append, ← length_utf8Bytes, List.drop_left]
  rw [List.map_id, List.map_id] at hscan
  obtain ⟨ps, qs, hroles, hps⟩ : ∃ ps qs, roles (piece ++ r) = ps ++ qs ∧ ps.map (·.1) = piece := by
    refine ⟨(roles (piece ++ r)).take piece.length, (roles (piece ++ r)).drop piece.length,
      (List.take_append_drop _ _).symm, ?_⟩
    rw [List.map_take, roles, rolesFrom_map_fst, List.take_left]
  have hfront : ∀ p ∈ codeOf (size l) ps, p.1 + p.2.utf8Size ≤ size l + size piece := by
    rintro ⟨i, c⟩ hmem
    obtain ⟨before, after, hchars, rfl⟩ := mem_codeOf hmem
    rw [hps] at hchars
    simp only [hchars, size_append, size_cons]
    omega
  have hback : ∀ p ∈ codeOf (size l + size piece) qs, size l + size piece ≤ p.1 := by
    rintro ⟨i, c⟩ hmem
    obtain ⟨before, after, -, rfl⟩ := mem_codeOf hmem
    exact Nat.le_add_right _ _
  have hchars : Text.codeIn (l ++ (piece ++ r)) ⟨size l, size l + size piece⟩ = codeOf (size l) ps := by
    rw [Text.codeIn, dropBytes_size_append, hroles, codeOf_append, hps]
    refine takeWhile_append_of_neg (fun p hp => ?_) fun p hp => ?_
    · have hpos := p.2.utf8Size_pos
      have hle := hfront p hp
      simp only [decide_eq_true_eq]
      omega
    · simpa using hback p hp
  rw [hchars, codeIn, hdrop, ← Region.state, hscan, marked_encoded, ← roles, hroles, codeOf_append, hps,
    List.flatMap_append]
  refine takeWhile_append_of_neg ?_ ?_
  · rintro ⟨i, b⟩ hmem
    obtain ⟨⟨j, c⟩, hp, hlocated⟩ := List.mem_flatMap.mp hmem
    have hlt := (mem_marked hlocated).1
    have hle := hfront _ hp
    rw [List.length_map, String.length_utf8EncodeChar] at hlt
    simp only [decide_eq_true_eq]
    exact Nat.lt_of_lt_of_le hlt hle
  · rintro ⟨i, b⟩ hmem
    obtain ⟨⟨j, c⟩, hp, hlocated⟩ := List.mem_flatMap.mp hmem
    have hfrom := (marked_ascending _ _).2 _ hlocated
    simpa using (hback _ hp).trans hfrom

theorem isBlank_lead (c : Char) : isBlank (lead c) = isAsciiBlank c := by
  rw [Bool.eq_iff_iff]
  simp only [isBlank, isAsciiBlank, Bool.or_eq_true, beq_iff_eq, lead_eq_iff (show isAscii ' ' from rfl),
    lead_eq_iff (show isAscii '\t' from rfl), lead_eq_iff (show isAscii '\n' from rfl),
    lead_eq_iff (show isAscii '\x0c' from rfl), lead_eq_iff (show isAscii '\r' from rfl)]

theorem isAscii_of_isAsciiBlank {c : Char} (h : isAsciiBlank c = true) : isAscii c := by
  simp only [isAsciiBlank, Bool.or_eq_true, beq_iff_eq] at h
  rcases h with (((rfl | rfl) | rfl) | rfl) | rfl <;> rfl

theorem encode_of_isAsciiBlank {c : Char} (h : isAsciiBlank c = true) :
    ∃ b, String.utf8EncodeChar c = [b] ∧ isBlank b = true := by
  refine ⟨lead c, ?_, by rw [isBlank_lead, h]⟩
  rw [lead_of_isAscii (isAscii_of_isAsciiBlank h), encode_of_isAscii (isAscii_of_isAsciiBlank h)]

theorem isBlank_of_mem_encode {c : Char} (h : isAsciiBlank c = false) {b : UInt8}
    (hb : b ∈ String.utf8EncodeChar c) : isBlank b = false := by
  cases hc : isAscii c with
  | true =>
    rw [encode_of_isAscii hc, List.mem_singleton, ← lead_of_isAscii hc] at hb
    rw [hb, isBlank_lead, h]
  | false =>
    have hne : ∀ a : Char, isAscii a → b ≠ a.toUInt8 := fun a ha =>
      ne_of_ge (byte_ge_of_not_isAscii hc hb) ha
    simp [isBlank, hne ' ' rfl, hne '\t' rfl, hne '\n' rfl, hne '\x0c' rfl, hne '\r' rfl]

theorem dropWhile_utf8Bytes (cs : List Char) :
    (utf8Bytes cs).dropWhile isBlank = utf8Bytes (cs.dropWhile isAsciiBlank) := by
  induction cs with
  | nil => rfl
  | cons c cs ih =>
    rw [utf8Bytes_cons]
    cases hc : isAsciiBlank c with
    | true =>
      obtain ⟨b, hb, hblank⟩ := encode_of_isAsciiBlank hc
      rw [hb, List.singleton_append, List.dropWhile_cons_of_pos hblank, ih,
        List.dropWhile_cons_of_pos hc]
    | false =>
      have hlead : isBlank (lead c) = false := by rw [isBlank_lead, hc]
      obtain ⟨bs, hbs⟩ : ∃ bs, String.utf8EncodeChar c = lead c :: bs := by
        cases he : String.utf8EncodeChar c with
        | nil => exact absurd he String.utf8EncodeChar_ne_nil
        | cons b bs => exact ⟨bs, by rw [lead, he, List.headD_cons]⟩
      rw [List.dropWhile_cons_of_neg (by simp [hc]), utf8Bytes_cons, hbs, List.cons_append,
        List.dropWhile_cons_of_neg (by simp [hlead])]

theorem trim_piece {cs piece : List Char} {s : Span} (h : IsPiece cs s piece) :
    trim (utf8Bytes cs) s = trimSpan cs s := by
  obtain ⟨lead, kept, tail, hpiece, hrest, hkept, hlead, htail, -, hlast⟩ :=
    exists_trimmed isAsciiBlank piece
  have hbytes : ((utf8Bytes cs).take s.stop).drop s.start = utf8Bytes piece := by
    obtain ⟨l, r, rfl, rfl⟩ := h
    rw [utf8Bytes_append, utf8Bytes_append, ← length_utf8Bytes l, ← length_utf8Bytes piece,
      List.take_length_add_append, List.take_left, List.drop_left]
  have hback : ((utf8Bytes (kept ++ tail)).reverse.dropWhile isBlank).length = size kept := by
    have htailBytes : ∀ b ∈ (utf8Bytes tail).reverse, isBlank b = true := by
      intro b hb
      obtain ⟨c, hc, hbc⟩ := List.mem_flatMap.mp (List.mem_reverse.mp hb)
      obtain ⟨b', hb', hblank⟩ := encode_of_isAsciiBlank (htail c hc)
      rw [hb', List.mem_singleton] at hbc
      rwa [hbc]
    rw [utf8Bytes_append, List.reverse_append, List.dropWhile_append_of_pos htailBytes]
    rcases List.eq_nil_or_concat' kept with rfl | ⟨init, c, rfl⟩
    · rfl
    · have hsolid : isAsciiBlank c = false := hlast c (by simp)
      obtain ⟨bs, b, hbs⟩ := (List.eq_nil_or_concat' _).resolve_left (String.utf8EncodeChar_ne_nil (c := c))
      have hb : isBlank b = false := isBlank_of_mem_encode hsolid (by simp [hbs])
      have hend : utf8Bytes (init ++ [c]) = utf8Bytes init ++ bs ++ [b] := by
        rw [utf8Bytes_append, utf8Bytes_cons, hbs, show utf8Bytes [] = [] from rfl, List.append_nil,
          List.append_assoc]
      rw [← length_utf8Bytes, hend, List.reverse_append, List.reverse_singleton, List.singleton_append,
        List.dropWhile_cons_of_neg (by simp [hb])]
      simp only [List.length_cons, List.length_reverse, List.length_append, List.length_nil]
  have hsize := congrArg size hpiece
  have hlength := congrArg List.length hpiece
  have hstop := h.stop_eq
  rw [hrest] at hkept
  simp only [size_append, List.length_append, size_of_blanks hlead, size_of_blanks htail] at hsize hlength
  simp only [trim, trimSpan, length_utf8Bytes, Nat.min_eq_left h.stop_le_size, hbytes,
    dropWhile_utf8Bytes, hrest, hback, size_append, size_of_blanks htail, h.slice_eq, hkept,
    List.length_append, Span.mk.injEq]
  omega

theorem splitTopLevel_utf8Bytes {cs : List Char} {s : Span} (hstart : IsBoundary cs s.start)
    (hstop : IsBoundary cs s.stop) (hle : s.start ≤ s.stop) :
    splitTopLevel (utf8Bytes cs) s = Text.splitTopLevel cs s := by
  have hpiece := isPiece_of_boundaries hstart hstop hle
  have hsub := Text.sublist_commasIn 0 (Text.codeIn cs s)
  have hsorted := List.pairwise_map (f := fun i => (i, ',')).mp ((Text.codeIn_ascending cs s).sublist hsub)
  have hmarks : ∀ i ∈ Text.commasIn 0 (Text.codeIn cs s),
      s.start ≤ i ∧ i < s.stop ∧ IsBoundary cs i ∧ IsBoundary cs (i + 1) := by
    intro i hi
    obtain ⟨hcomma, hge, hlt⟩ := mem_codeIn hstart (hsub.subset (List.mem_map_of_mem hi))
    exact ⟨hge, hlt, hcomma.boundary, hcomma.boundary_after⟩
  rw [splitTopLevel, Text.splitTopLevel, trimmedPieces, length_utf8Bytes, codeIn_piece hpiece,
    commasIn_located, Nat.min_eq_left hstop.le_size]
  congr 1
  refine List.map_congr_left fun p hp => ?_
  obtain ⟨piece, hp⟩ := isPiece_of_mem_cutAt hstart hstop hle hsorted hmarks hp
  exact trim_piece hp

end Byte

/-- Blocks and rows are exact, in the bytes of every text and in its characters. A search from an opening
parenthesis ends at the first byte of plain code up to which as many parentheses are closed as opened,
and finds nothing if there is none. What the bytes of a range are cut into are its rows and nothing else
is. In a text, from a place between characters or between two of them, both searches find the same in
the characters. -/
theorem blocks_exact (cs : List Char) :
    let bytes := utf8Bytes cs
    (∀ start c, Byte.matchingParen? bytes start = some c ↔ bytes[start]? = some '('.toUInt8 ∧
      Byte.Closes 0 (Byte.codeIn bytes ⟨start, bytes.length⟩) c) ∧
    (∀ s : Span, s.start ≤ s.stop → s.stop ≤ bytes.length → ∀ rows,
      Byte.splitTopLevel bytes s = rows ↔ Byte.Rows bytes s rows) ∧
    (∀ start, IsBoundary cs start → matchingParen? cs start = Byte.matchingParen? bytes start) ∧
    ∀ s : Span, IsBoundary cs s.start → IsBoundary cs s.stop → s.start ≤ s.stop →
      splitTopLevel cs s = Byte.splitTopLevel bytes s := by
  intro bytes
  refine ⟨fun start c => Byte.matchingParen?_eq_some_iff, ?_, ?_, ?_⟩
  · exact fun s hle hstop rows => Byte.splitTopLevel_eq_iff hle hstop
  · exact fun start hstart => (Byte.matchingParen?_utf8Bytes hstart).symm
  · exact fun s hstart hstop hle => (Byte.splitTopLevel_utf8Bytes hstart hstop hle).symm

/-- A block with commas in parentheses, in a literal, in a bracketed name and in a comment, an unopened
parenthesis in its range, and a row that holds nothing. -/
theorem blocks_exact_nested :
    let bytes := utf8Bytes "é(a, f(b, ')') , [x,)] -- ,(\n,, c))".toList
    Byte.Closes 0 (Byte.codeIn bytes ⟨2, 36⟩) 34 ∧
      Byte.Rows bytes ⟨3, 36⟩ [⟨3, 4⟩, ⟨6, 15⟩, ⟨18, 29⟩, ⟨33, 36⟩] := by
  intro bytes
  obtain ⟨hcloses, hrows, -⟩ := blocks_exact "é(a, f(b, ')') , [x,)] -- ,(\n,, c))".toList
  have hfound : Byte.matchingParen? bytes 2 = some 34 := by decide +kernel
  have hcut : Byte.splitTopLevel bytes ⟨3, 36⟩ = [⟨3, 4⟩, ⟨6, 15⟩, ⟨18, 29⟩, ⟨33, 36⟩] := by
    decide +kernel
  exact ⟨((hcloses 2 34).mp hfound).2, (hrows ⟨3, 36⟩ (by decide) (by decide +kernel) _).mp hcut⟩

end SqlAtlas.Text
