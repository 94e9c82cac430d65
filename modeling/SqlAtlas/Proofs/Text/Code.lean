import SqlAtlas.Proofs.Text.Block
import SqlAtlas.Proofs.Text.Byte

/-!
# Code in masked text

A search for plain code finds in masked text what it finds in the text, and blanks besides. Blanks open
and close nothing. So a parenthesis of plain code is closed by the same one in both.
-/

namespace SqlAtlas.Text

set_option autoImplicit false

/-- The second list is the first one with blank entries put in. -/
inductive Padded {α : Type} (blank : α → Prop) : List (Nat × α) → List (Nat × α) → Prop
  | nil : Padded blank [] []
  | keep {as bs : List (Nat × α)} (p : Nat × α) : Padded blank as bs → Padded blank (p :: as) (p :: bs)
  | pad {as bs : List (Nat × α)} {p : Nat × α} : blank p.2 → Padded blank as bs →
    Padded blank as (p :: bs)

namespace Padded

variable {α : Type} {blank : α → Prop} {as bs cs ds : List (Nat × α)}

theorem refl (as : List (Nat × α)) : Padded blank as as := by
  induction as with
  | nil => exact nil
  | cons p as ih => exact keep p ih

theorem of_blanks (h : ∀ p ∈ bs, blank p.2) : Padded blank [] bs := by
  induction bs with
  | nil => exact nil
  | cons p bs ih => exact pad (h p List.mem_cons_self) (ih fun q hq => h q (List.mem_cons_of_mem p hq))

theorem append (h : Padded blank as bs) (h' : Padded blank cs ds) :
    Padded blank (as ++ cs) (bs ++ ds) := by
  induction h with
  | nil => exact h'
  | keep p _ ih => exact keep p ih
  | pad hp _ ih => exact pad hp ih

theorem sublist (h : Padded blank as bs) : as.Sublist bs := by
  induction h with
  | nil => exact List.Sublist.slnil
  | keep p _ ih => exact ih.cons_cons p
  | pad _ _ ih => exact ih.cons _

theorem mem_or_blank (h : Padded blank as bs) {p : Nat × α} (hp : p ∈ bs) : p ∈ as ∨ blank p.2 := by
  induction h with
  | nil => cases hp
  | keep q _ ih =>
    rcases List.mem_cons.mp hp with rfl | hp
    · exact .inl List.mem_cons_self
    · exact (ih hp).imp_left (List.mem_cons_of_mem q)
  | pad hblank _ ih =>
    rcases List.mem_cons.mp hp with rfl | hp
    · exact .inr hblank
    · exact ih hp

theorem flatMap {β : Type} {blank' : β → Prop} {f : Nat × α → List (Nat × β)}
    (hf : ∀ p, blank p.2 → ∀ q ∈ f p, blank' q.2) (h : Padded blank as bs) :
    Padded blank' (as.flatMap f) (bs.flatMap f) := by
  induction h with
  | nil => exact nil
  | keep p _ ih =>
    rw [List.flatMap_cons, List.flatMap_cons]
    exact (refl (f p)).append ih
  | @pad _ _ p hp _ ih =>
    rw [List.flatMap_cons]
    exact (of_blanks (hf p hp)).append ih

end Padded

def IsBlankedOf (c : Char) : Prop := c = ' ' ∨ c = '\n' ∨ c = '\r'

/-! ### Characters of code -/

theorem codeOf_append (offset : Nat) (ps qs : List (Char × Role)) : codeOf offset (ps ++ qs) =
    codeOf offset ps ++ codeOf (offset + size (ps.map (·.1))) qs := by
  induction ps generalizing offset with
  | nil => rfl
  | cons p ps ih =>
    obtain ⟨c, role⟩ := p
    rw [List.cons_append, codeOf, codeOf, ih, List.map_cons, size_cons, Nat.add_assoc]
    split
    · rfl
    · rfl

theorem size_remasked (literals : Bool) (p : Char × Role) :
    size ((remasked literals p).map (·.1)) = p.1.utf8Size := by
  rw [remasked, List.map_map, Function.comp_def, List.map_id', size_masked]

theorem padded_remasked (literals : Bool) (offset : Nat) (p : Char × Role) :
    Padded IsBlankedOf (codeOf offset [p]) (codeOf offset (remasked literals p)) := by
  obtain ⟨c, role⟩ := p
  by_cases hhides : hides literals role
  · have hblanks : remasked literals (c, role) = (blanked c).map (·, role.reread) := by
      rw [remasked, masked, if_pos hhides]
    have hnone : codeOf offset [(c, role)] = [] := by
      rw [codeOf, if_neg, codeOf]
      rintro rfl
      rw [hides_code] at hhides
      cases hhides
    rw [hblanks, hnone]
    refine Padded.of_blanks ?_
    rintro ⟨i, b⟩ hmem
    obtain ⟨l, r, hmap, _⟩ := mem_codeOf hmem
    rw [List.map_map, Function.comp_def, List.map_id'] at hmap
    exact blank_of_mem_blanked (by rw [hmap]; simp)
  · rw [Bool.not_eq_true] at hhides
    rw [remasked, masked_shown hhides, reread_of_shown hhides]
    exact Padded.refl _

theorem padded_codeOf (literals : Bool) (offset : Nat) (ps : List (Char × Role)) :
    Padded IsBlankedOf (codeOf offset ps) (codeOf offset (ps.flatMap (remasked literals))) := by
  induction ps generalizing offset with
  | nil => exact Padded.nil
  | cons p ps ih =>
    rw [← List.singleton_append, codeOf_append, List.flatMap_append, List.flatMap_singleton,
      codeOf_append, size_remasked]
    exact (padded_remasked literals offset p).append (ih _)

theorem codeIn_to_end (l r : List Char) :
    codeIn (l ++ r) ⟨size l, size (l ++ r)⟩ = codeOf (size l) (roles r) := by
  rw [codeIn, dropBytes_size_append, List.takeWhile_eq_self_iff]
  rintro ⟨i, c⟩ hmem
  obtain ⟨before, after, hchars, rfl⟩ := mem_codeOf hmem
  rw [roles, rolesFrom_map_fst] at hchars
  have hpos := c.utf8Size_pos
  simp only [hchars, size_append, size_cons, decide_eq_true_eq]
  omega

theorem Region.Steps.eq_code {r after : Region} {c : Char} {next : Option Char}
    (h : Steps r c next .code after) (hr : r.Proper) : r = .code := by
  cases h with
  | code => rfl
  | inside _ hdelimited _ => cases hdelimited
  | doubled hdelimited => cases hdelimited
  | second => exact hr.elim

/-- The scan of a text stands in plain code in front of a character of code. -/
theorem exists_rolesFrom_of_mem_codeOf {r : Region} (hr : r.Proper) {offset i : Nat} {c : Char}
    {cs : List Char} (h : (i, c) ∈ codeOf offset (rolesFrom r cs)) :
    ∃ ps rest, rolesFrom r cs = ps ++ rolesFrom .code (c :: rest) ∧
      i = offset + size (ps.map (·.1)) := by
  induction cs generalizing r offset with
  | nil => cases h
  | cons d cs ih =>
    have hstep := r.steps_step d cs.head?
    generalize (r.step d cs.head?).1 = role, (r.step d cs.head?).2 = after at hstep
    have hlater : (i, c) ∈ codeOf (offset + d.utf8Size) (rolesFrom after cs) →
        ∃ ps rest, rolesFrom r (d :: cs) = ps ++ rolesFrom .code (c :: rest) ∧
          i = offset + size (ps.map (·.1)) := by
      intro hmem
      obtain ⟨ps, rest, hroles, rfl⟩ := ih (hstep.proper hr) hmem
      refine ⟨(d, role) :: ps, rest, by rw [hstep.rolesFrom_cons, hroles, List.cons_append], ?_⟩
      rw [List.map_cons, size_cons, Nat.add_assoc]
    rw [hstep.rolesFrom_cons, codeOf] at h
    split at h
    · rename_i hcode
      subst hcode
      rcases List.mem_cons.mp h with heq | h
      · cases heq
        rw [hstep.eq_code hr]
        exact ⟨[], cs, rfl, rfl⟩
      · exact hlater h
    · exact hlater h

/-! ### Parentheses -/

theorem depthAfter_of_blanked {c : Char} (h : IsBlankedOf c) (depth : Nat) :
    depthAfter depth c = depth := by
  rcases h with rfl | rfl | rfl <;> rfl

theorem Padded.closingIn_eq {as bs : List (Nat × Char)} (h : Padded IsBlankedOf as bs) (depth : Nat) :
    closingIn depth as = closingIn depth bs := by
  induction h generalizing depth with
  | nil => rfl
  | keep p _ ih =>
    rw [closingIn, closingIn, ih]
  | @pad as bs p hp _ ih =>
    have hparen : p.2 ≠ ')' := by
      rintro heq
      rw [heq] at hp
      revert hp
      unfold IsBlankedOf
      decide
    rw [ih depth, closingIn, if_neg (by simp [hparen]), depthAfter_of_blanked hp]

theorem masking_append_code (literals : Bool) {cs : List Char} {c : Char} {rest : List Char}
    {ps : List (Char × Role)} (h : roles cs = ps ++ rolesFrom .code (c :: rest)) :
    cs = ps.map (·.1) ++ c :: rest ∧ masking literals cs =
      ps.flatMap (masked (hides literals)) ++ masking literals (c :: rest) := by
  constructor
  · have hchars := rolesFrom_map_fst .code cs
    rw [← roles, h, List.map_append, rolesFrom_map_fst] at hchars
    exact hchars.symm
  · rw [← mask_hides, mask_eq, mask_eq, h, List.flatMap_append, roles]

theorem masking_paren (literals : Bool) (rest : List Char) :
    ∃ more, masking literals ('(' :: rest) = '(' :: more := by
  have hstep : Region.Steps .code '(' rest.head? .code .code :=
    .code (by simp) (by simp) rfl
  rw [← mask_hides, mask_eq, roles, hstep.rolesFrom_cons, List.flatMap_cons, masked_shown (hides_code _)]
  exact ⟨_, rfl⟩

/-- A parenthesis of plain code is closed by the same one in masked text. -/
theorem matchingParen?_masking (literals : Bool) {cs : List Char} {i : Nat}
    (h : (i, '(') ∈ codeOf 0 (roles cs)) :
    matchingParen? (masking literals cs) i = matchingParen? cs i := by
  obtain ⟨ps, rest, hroles, hi⟩ := exists_rolesFrom_of_mem_codeOf (r := .code) trivial h
  obtain ⟨hcs, hmasked⟩ := masking_append_code literals hroles
  obtain ⟨more, hmore⟩ := masking_paren literals rest
  have hsize : size (ps.flatMap (masked (hides literals))) = i := by
    rw [size_flatMap_masked, hi, Nat.zero_add]
  rw [Nat.zero_add] at hi
  have hopen : charAt? cs i = some '(' ∧ charAt? (masking literals cs) i = some '(' := by
    constructor
    · rw [charAt?, hcs, hi, dropBytes_size_append, List.head?_cons]
    · rw [charAt?, hmasked, ← hsize, dropBytes_size_append, hmore, List.head?_cons]
  have hcode : codeIn cs ⟨i, size cs⟩ = codeOf i (roles ('(' :: rest)) := by
    rw [hi, hcs, codeIn_to_end]
  have hmaskedCode : codeIn (masking literals cs) ⟨i, size (masking literals cs)⟩ =
      codeOf i ((roles ('(' :: rest)).flatMap (remasked literals)) := by
    rw [← roles_mask, mask_hides, hmasked, ← hsize, codeIn_to_end]
  rw [matchingParen?, matchingParen?, hopen.1, hopen.2, hcode, hmaskedCode]
  simp only [beq_self_eq_true, if_true]
  exact ((padded_codeOf literals i _).closingIn_eq 0).symm

theorem isBoundary_of_mem_codeOf {cs : List Char} {i : Nat} {c : Char}
    (h : (i, c) ∈ codeOf 0 (roles cs)) : IsBoundary cs i := by
  obtain ⟨l, r, hchars, rfl⟩ := mem_codeOf h
  rw [roles, rolesFrom_map_fst] at hchars
  exact ⟨l, c :: r, hchars, (Nat.zero_add _).symm⟩

/-! ### Bytes of code -/

def located (p : Nat × Char) : List (Nat × UInt8) :=
  Byte.marked p.1 ((String.utf8EncodeChar p.2).map (·, true))

theorem located_of_isAscii {c : Char} (h : isAscii c) (i : Nat) : located (i, c) = [(i, c.toUInt8)] := by
  rw [located, encode_of_isAscii h]
  rfl

namespace Byte

theorem marked_append (offset : Nat) (ps qs : List (UInt8 × Bool)) :
    marked offset (ps ++ qs) = marked offset ps ++ marked (offset + ps.length) qs := by
  induction ps generalizing offset with
  | nil => rfl
  | cons p ps ih =>
    obtain ⟨b, mark⟩ := p
    rw [List.cons_append, marked, marked, ih, List.length_cons, Nat.add_assoc, Nat.add_comm 1]
    split
    · rfl
    · rfl

theorem marked_unmarked (offset : Nat) (bs : List UInt8) : marked offset (bs.map (·, false)) = [] := by
  induction bs generalizing offset with
  | nil => rfl
  | cons b bs ih => rw [List.map_cons, marked, if_neg Bool.false_ne_true, ih]

theorem mem_marked {offset i : Nat} {b : UInt8} {ps : List (UInt8 × Bool)}
    (h : (i, b) ∈ marked offset ps) : i < offset + ps.length ∧ (b, true) ∈ ps := by
  induction ps generalizing offset with
  | nil => cases h
  | cons p ps ih =>
    obtain ⟨b', mark⟩ := p
    have hlater : (i, b) ∈ marked (offset + 1) ps →
        i < offset + (ps.length + 1) ∧ (b, true) ∈ (b', mark) :: ps := by
      intro hmem
      obtain ⟨hlt, hb⟩ := ih hmem
      exact ⟨by omega, List.mem_cons_of_mem _ hb⟩
    rw [marked] at h
    split at h
    · rename_i hmark
      rcases List.mem_cons.mp h with heq | h
      · cases heq
        rw [hmark]
        exact ⟨by simp, List.mem_cons_self⟩
      · exact hlater h
    · exact hlater h

theorem marked_encoded (offset : Nat) (ps : List (Char × Role)) :
    marked offset (ps.flatMap (encoded (· == .code))) = (codeOf offset ps).flatMap located := by
  induction ps generalizing offset with
  | nil => rfl
  | cons p ps ih =>
    obtain ⟨c, role⟩ := p
    rw [List.flatMap_cons, marked_append, ih, encoded, List.length_map, String.length_utf8EncodeChar,
      codeOf]
    split
    · rename_i h
      subst h
      rw [List.flatMap_cons]
      rfl
    · rename_i h
      rw [beq_eq_false_iff_ne.mpr h, marked_unmarked, List.nil_append]

theorem codeIn_to_end (l r : List Char) :
    codeIn (utf8Bytes (l ++ r)) ⟨size l, (utf8Bytes (l ++ r)).length⟩ =
      (codeOf (size l) (roles r)).flatMap located := by
  have hscan := follows_codeTurn.scan_utf8Bytes (r := .code) nofun r
  rw [List.map_id, List.map_id] at hscan
  have hdrop : (utf8Bytes (l ++ r)).drop (size l) = utf8Bytes r := by
    rw [utf8Bytes_append, ← length_utf8Bytes, List.drop_left]
  rw [codeIn, hdrop, ← Region.state, hscan, List.takeWhile_eq_self_iff.mpr, marked_encoded, roles]
  rintro ⟨i, b⟩ hmem
  obtain ⟨hlt, -⟩ := mem_marked hmem
  rw [← hscan, length_scan] at hlt
  simpa only [utf8Bytes_append, List.length_append, length_utf8Bytes, decide_eq_true_eq] using hlt

theorem closingIn_of_beyond {bs : List (Nat × UInt8)} (hbs : ∀ p ∈ bs, 128 ≤ p.2) (depth : Nat)
    (rest : List (Nat × UInt8)) : closingIn depth (bs ++ rest) = closingIn depth rest := by
  induction bs with
  | nil => rfl
  | cons p bs ih =>
    have hopens : p.2 ≠ '('.toUInt8 := ne_of_ge (hbs p List.mem_cons_self) rfl
    have hcloses : p.2 ≠ ')'.toUInt8 := ne_of_ge (hbs p List.mem_cons_self) rfl
    rw [List.cons_append, closingIn, if_neg (by simpa using hopens), if_neg (by simpa using hcloses),
      ih fun q hq => hbs q (List.mem_cons_of_mem p hq)]

theorem located_beyond {c : Char} (hc : isAscii c = false) (i : Nat) :
    ∀ q ∈ located (i, c), 128 ≤ q.2 := by
  intro q hq
  obtain ⟨-, hmem⟩ := mem_marked hq
  obtain ⟨b, hb, heq⟩ := List.mem_map.mp hmem
  cases heq
  exact byte_ge_of_not_isAscii hc hb

theorem closingIn_located (depth : Nat) (ps : List (Nat × Char)) :
    closingIn depth (ps.flatMap located) = Text.closingIn depth ps := by
  induction ps generalizing depth with
  | nil => rfl
  | cons p ps ih =>
    obtain ⟨i, c⟩ := p
    rw [List.flatMap_cons]
    cases hc : isAscii c with
    | false =>
      have hparens : c ≠ ')' ∧ c ≠ '(' := by
        constructor <;> rintro rfl <;> cases hc
      rw [closingIn_of_beyond (located_beyond hc i), ih, Text.closingIn, if_neg (by simp [hparens.1])]
      simp [depthAfter, hparens]
    | true =>
      rw [located_of_isAscii hc, ← lead_of_isAscii hc, List.singleton_append, closingIn, Text.closingIn,
        depthAfter]
      simp only [beq_iff_eq, lead_eq_iff (show isAscii '(' from rfl),
        lead_eq_iff (show isAscii ')' from rfl), Bool.and_eq_true, decide_eq_true_eq, ih]
      by_cases hopens : c = '('
      · rw [if_pos hopens, if_pos hopens, if_neg]
        rintro ⟨rfl, -⟩
        cases hopens
      · rw [if_neg hopens, if_neg hopens]
        by_cases hcloses : c = ')'
        · simp only [hcloses, if_true, true_and, Nat.sub_eq_zero_iff_le]
        · simp only [hcloses, if_false, false_and]

/-- The search for a closing parenthesis gives the same answer for bytes and for characters. -/
theorem matchingParen?_utf8Bytes {cs : List Char} {i : Nat} (h : IsBoundary cs i) :
    matchingParen? (utf8Bytes cs) i = Text.matchingParen? cs i := by
  obtain ⟨l, r, rfl, rfl⟩ := h
  have hbyte : (utf8Bytes (l ++ r))[size l]? = (charAt? (l ++ r) (size l)).map lead := by
    rw [charAt?, dropBytes_size_append, ← head?_utf8Bytes, utf8Bytes_append, ← length_utf8Bytes,
      List.getElem?_append_right (Nat.le_refl _), Nat.sub_self, List.head?_eq_getElem?]
  have hopens : ((charAt? (l ++ r) (size l)).map lead == some '('.toUInt8) =
      (charAt? (l ++ r) (size l) == some '(') := by
    cases charAt? (l ++ r) (size l) with
    | none => rfl
    | some c =>
      rw [Option.map_some, Bool.eq_iff_iff]
      simp [lead_eq_iff (show isAscii '(' from rfl)]
  rw [matchingParen?, Text.matchingParen?, hbyte, hopens, codeIn_to_end, closingIn_located,
    Text.codeIn_to_end]

theorem code_utf8Bytes (cs : List Char) :
    code (utf8Bytes cs) = (codeOf 0 (roles cs)).flatMap located := codeIn_to_end [] cs

theorem mem_codeOf_of_mem_code {cs : List Char} {i : Nat} {a : Char} (ha : isAscii a)
    (h : (i, a.toUInt8) ∈ code (utf8Bytes cs)) : (i, a) ∈ codeOf 0 (roles cs) := by
  rw [code_utf8Bytes] at h
  obtain ⟨⟨j, c⟩, hcode, hlocated⟩ := List.mem_flatMap.mp h
  obtain ⟨b, hb, heq⟩ := List.mem_map.mp (mem_marked hlocated).2
  cases heq
  obtain rfl := eq_of_mem_encode ha hb
  rw [located_of_isAscii ha] at hlocated
  cases List.mem_singleton.mp hlocated
  exact hcode

end Byte

/-- Masked text has the code of the text. A search for plain code finds in it every byte that it finds in
the text, in the same order and at the same offset, and besides only spaces and bytes that end lines. A
parenthesis of plain code is closed by the same one in both, and that is so for bytes and for
characters. -/
theorem masking_keeps_code (literals : Bool) (cs : List Char) :
    let bytes := utf8Bytes cs
    let masked := Byte.mask literals bytes
    (Byte.code bytes).Sublist (Byte.code masked) ∧
      (∀ p ∈ Byte.code masked, p ∈ Byte.code bytes ∨
        p.2 = ' '.toUInt8 ∨ p.2 = '\n'.toUInt8 ∨ p.2 = '\r'.toUInt8) ∧
      Byte.code bytes = (codeIn cs ⟨0, size cs⟩).flatMap located ∧
      ∀ i, (i, '('.toUInt8) ∈ Byte.code bytes →
        Byte.matchingParen? masked i = Byte.matchingParen? bytes i ∧
        matchingParen? (masking literals cs) i = matchingParen? cs i ∧
        Byte.matchingParen? bytes i = matchingParen? cs i := by
  intro bytes masked
  have hmasked : masked = utf8Bytes (masking literals cs) := Byte.mask_utf8Bytes literals cs
  have hpadded : Padded (fun b : UInt8 => b = ' '.toUInt8 ∨ b = '\n'.toUInt8 ∨ b = '\r'.toUInt8)
      (Byte.code bytes) (Byte.code masked) := by
    rw [hmasked, Byte.code_utf8Bytes, Byte.code_utf8Bytes, ← mask_hides, roles_mask]
    refine (padded_codeOf literals 0 (roles cs)).flatMap ?_
    rintro ⟨i, c⟩ hblank q hq
    rcases hblank with rfl | rfl | rfl
    · rw [located_of_isAscii rfl, List.mem_singleton] at hq
      exact .inl (congrArg Prod.snd hq)
    · rw [located_of_isAscii rfl, List.mem_singleton] at hq
      exact .inr (.inl (congrArg Prod.snd hq))
    · rw [located_of_isAscii rfl, List.mem_singleton] at hq
      exact .inr (.inr (congrArg Prod.snd hq))
  refine ⟨hpadded.sublist, fun p => hpadded.mem_or_blank, ?_, ?_⟩
  · rw [Byte.code_utf8Bytes]
    exact congrArg (List.flatMap located) (codeIn_to_end [] cs).symm
  · intro i hi
    have hi' := hpadded.sublist.subset hi
    rw [hmasked] at hi' ⊢
    have hcode := Byte.mem_codeOf_of_mem_code rfl hi
    have hchars := matchingParen?_masking literals hcode
    have hbytes := Byte.matchingParen?_utf8Bytes (isBoundary_of_mem_codeOf hcode)
    have hbytes' := Byte.matchingParen?_utf8Bytes
      (isBoundary_of_mem_codeOf (Byte.mem_codeOf_of_mem_code rfl hi'))
    exact ⟨by rw [hbytes', hchars, hbytes], hchars, hbytes⟩

/-- Parentheses in a nested comment, in a literal and in a bracketed name close nothing. -/
theorem masking_keeps_code_nested :
    let text := "f(a /* ( /* ) */ é */, ')''(', [)]])] -- )\n) x".toList
    (1, '('.toUInt8) ∈ Byte.code (utf8Bytes text) ∧
      Byte.matchingParen? (Byte.mask true (utf8Bytes text)) 1 = some 44 ∧
      matchingParen? (masking true text) 1 = some 44 := by
  intro text
  have hopens : (1, '('.toUInt8) ∈ Byte.code (utf8Bytes text) := by decide +kernel
  have hcloses : matchingParen? text 1 = some 44 := by decide +kernel
  obtain ⟨hbytes, hchars, hsame⟩ := (masking_keeps_code true text).2.2.2 1 hopens
  exact ⟨hopens, by rw [hbytes, hsame, hcloses], by rw [hchars, hcloses]⟩

end SqlAtlas.Text
