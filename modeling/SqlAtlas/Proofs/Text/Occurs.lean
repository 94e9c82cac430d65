import SqlAtlas.Proofs.Text.Folding
import SqlAtlas.Proofs.Text.Utf8
import SqlAtlas.Text.Occurs

/-!
# What a search of bytes finds

The bytes of a text occur among those of another only where characters begin and end, so that a search
of bytes finds a text exactly where its characters stand.
-/

namespace SqlAtlas.Text

set_option autoImplicit false

/-! ### Bytes of letters -/

theorem Byte.lower_of_ge {b : UInt8} (h : 128 ≤ b) : Byte.lower b = b := by
  rw [Byte.lower, if_neg]
  rintro ⟨-, hle⟩
  exact absurd (UInt8.le_trans h hle) (by decide)

theorem exists_ofNat_of_isAscii {c : Char} (h : isAscii c) : ∃ n < 128, c = Char.ofNat n := by
  rw [isAscii_iff] at h
  exact ⟨c.toNat, Nat.lt_succ_of_le h, (Char.ofNat_toNat c).symm⟩

theorem isAscii_of_isUpper {c : Char} (h : c.isUpper) : isAscii c := by
  obtain ⟨n, hn, rfl⟩ := exists_ofNat_of_isUpper h
  revert n
  decide

theorem ascii_letters : ∀ n < 128, isAscii (Char.ofNat n).toLower ∧
    Byte.lower (Char.ofNat n).toUInt8 = (Char.ofNat n).toLower.toUInt8 := by
  decide

theorem map_lower_encode (c : Char) :
    (String.utf8EncodeChar c).map Byte.lower = String.utf8EncodeChar c.toLower := by
  cases hascii : isAscii c with
  | true =>
    obtain ⟨n, hn, rfl⟩ := exists_ofNat_of_isAscii hascii
    obtain ⟨hlower, hbyte⟩ := ascii_letters n hn
    rw [encode_of_isAscii hascii, encode_of_isAscii hlower, List.map_singleton, hbyte]
  | false =>
    have hupper : c.isUpper = false := by
      cases hupper : c.isUpper with
      | false => rfl
      | true => rw [isAscii_of_isUpper hupper] at hascii; cases hascii
    rw [toLower_eq_self hupper]
    exact (List.map_congr_left fun b hb => Byte.lower_of_ge (byte_ge_of_not_isAscii hascii hb)).trans
      (List.map_id _)

theorem map_lower_utf8Bytes (cs : List Char) :
    (utf8Bytes cs).map Byte.lower = utf8Bytes (asciiLower cs) := by
  induction cs with
  | nil => rfl
  | cons c cs ih => rw [utf8Bytes_cons, List.map_append, map_lower_encode, ih, asciiLower_cons, utf8Bytes_cons]

/-! ### Where characters begin -/

theorem utf8Bytes_injective {as bs : List Char} (h : utf8Bytes as = utf8Bytes bs) : as = bs :=
  Option.some.inj (by rw [← decodeUtf8_utf8Bytes as, h, decodeUtf8_utf8Bytes])

theorem utf8Bytes_eq_nil_iff {cs : List Char} : utf8Bytes cs = [] ↔ cs = [] :=
  ⟨fun h => utf8Bytes_injective h, fun h => h ▸ rfl⟩

theorem decodeUtf8_append (as : List Char) (bytes : List UInt8) :
    decodeUtf8 (utf8Bytes as ++ bytes) = (decodeUtf8 bytes).map (as ++ ·) := by
  induction as with
  | nil => exact (Option.map_id_apply).symm
  | cons a as ih =>
    rw [utf8Bytes_cons, List.append_assoc, decodeUtf8_encode, ih, Option.map_map]
    rfl

theorem utf8Bytes_prefix_iff {as bs : List Char} : utf8Bytes as <+: utf8Bytes bs ↔ as <+: bs := by
  constructor
  · rintro ⟨rest, hrest⟩
    have hread := decodeUtf8_utf8Bytes bs
    rw [← hrest, decodeUtf8_append] at hread
    obtain ⟨behind, -, hbs⟩ := Option.map_eq_some_iff.mp hread
    exact ⟨behind, hbs⟩
  · rintro ⟨behind, rfl⟩
    exact ⟨utf8Bytes behind, (utf8Bytes_append as behind).symm⟩

/-- The bytes of a text begin with the first byte of a character. -/
theorem first_utf8Bytes {cs : List Char} {b : UInt8} {rest : List UInt8}
    (h : utf8Bytes cs = b :: rest) : b.IsUTF8FirstByte := by
  cases cs with
  | nil => cases h
  | cons c cs =>
    rw [utf8Bytes_cons] at h
    rcases List.append_eq_cons_iff.mp h with ⟨hnil, -⟩ | ⟨tail, hc, -⟩
    · exact absurd hnil String.utf8EncodeChar_ne_nil
    · have hpos : 0 < (String.utf8EncodeChar c).length := by simp [hc]
      have hget : (String.utf8EncodeChar c)[0] = b := by simp [hc]
      exact hget ▸ UInt8.isUTF8FirstByte_getElem_utf8EncodeChar.mpr rfl

/-- Bytes of a text that are cut before the first byte of a character are cut between characters. -/
theorem exists_cut {cs : List Char} {front rest : List UInt8} {b : UInt8}
    (h : utf8Bytes cs = front ++ b :: rest) (hb : b.IsUTF8FirstByte) :
    ∃ before behind, cs = before ++ behind ∧ utf8Bytes behind = b :: rest := by
  induction cs generalizing front with
  | nil => simp [utf8Bytes] at h
  | cons c cs ih =>
    rw [utf8Bytes_cons] at h
    rcases List.append_eq_append_iff.mp h with ⟨front', -, hcs⟩ | ⟨tail, hc, htail⟩
    · obtain ⟨before, behind, rfl, hbehind⟩ := ih hcs
      exact ⟨c :: before, behind, rfl, hbehind⟩
    · cases tail with
      | nil =>
        have hcs : utf8Bytes cs = [] ++ b :: rest := htail.symm
        obtain ⟨before, behind, rfl, hbehind⟩ := ih hcs
        exact ⟨c :: before, behind, rfl, hbehind⟩
      | cons b' tail =>
        rw [List.cons_append] at htail
        obtain ⟨rfl, rfl⟩ := List.cons.inj htail
        -- inside the bytes of `c`, only the front is a first byte
        have hlt : front.length < (String.utf8EncodeChar c).length := by simp [hc]
        have hget : (String.utf8EncodeChar c)[front.length] = b := by simp [hc]
        have hfront := UInt8.isUTF8FirstByte_getElem_utf8EncodeChar.mp (hget.symm ▸ hb)
        rw [List.length_eq_zero_iff] at hfront
        subst hfront
        exact ⟨[], c :: cs, rfl, by rw [utf8Bytes_cons, hc, List.nil_append, List.cons_append]⟩

theorem utf8Bytes_infix_iff {as bs : List Char} : utf8Bytes as <:+: utf8Bytes bs ↔ as <:+: bs := by
  constructor
  · rintro ⟨front, rest, hbytes⟩
    cases has : utf8Bytes as with
    | nil => exact utf8Bytes_eq_nil_iff.mp has ▸ List.nil_infix
    | cons b bytes =>
      rw [List.append_assoc, has, List.cons_append] at hbytes
      obtain ⟨before, behind, rfl, hbehind⟩ := exists_cut hbytes.symm (first_utf8Bytes has)
      have hprefix : as <+: behind := by
        rw [← utf8Bytes_prefix_iff, hbehind, has, ← List.cons_append]
        exact List.prefix_append _ _
      exact hprefix.isInfix.trans (List.suffix_append _ _).isInfix
  · rintro ⟨before, behind, rfl⟩
    rw [utf8Bytes_append, utf8Bytes_append]
    exact List.infix_append _ _ _

theorem utf8Bytes_suffix_iff {as bs : List Char} : utf8Bytes as <:+ utf8Bytes bs ↔ as <:+ bs := by
  constructor
  · rintro ⟨front, hbytes⟩
    cases has : utf8Bytes as with
    | nil => exact utf8Bytes_eq_nil_iff.mp has ▸ List.nil_suffix
    | cons b bytes =>
      rw [has] at hbytes
      obtain ⟨before, behind, rfl, hbehind⟩ := exists_cut hbytes.symm (first_utf8Bytes has)
      exact utf8Bytes_injective (has.trans hbehind.symm) ▸ List.suffix_append _ _
  · rintro ⟨before, rfl⟩
    exact ⟨utf8Bytes before, (utf8Bytes_append before as).symm⟩

/-! ### Searches -/

theorem Byte.same_iff {as bs : List UInt8} :
    Byte.same as bs = true ↔ as.map Byte.lower = bs.map Byte.lower := by
  rw [Byte.same, beq_iff_eq]

theorem Byte.mem_windows_iff {width : Nat} (hwidth : 0 < width) {bytes window : List UInt8} :
    window ∈ Byte.windows width bytes ↔ window.length = width ∧ window <:+: bytes := by
  induction bytes with
  | nil =>
    constructor
    · intro h
      cases h
    · rintro ⟨hlength, hinfix⟩
      rw [List.infix_nil.mp hinfix] at hlength
      exact absurd hlength (Nat.ne_of_lt hwidth)
  | cons b bytes ih =>
    rw [Byte.windows, List.infix_cons_iff]
    split
    · rename_i hfits
      rw [List.mem_cons, ih]
      constructor
      · rintro (rfl | ⟨hlength, hinfix⟩)
        · exact ⟨List.length_take_of_le hfits, Or.inl (List.take_prefix _ _)⟩
        · exact ⟨hlength, Or.inr hinfix⟩
      · rintro ⟨rfl, hprefix | hinfix⟩
        · exact Or.inl (List.prefix_iff_eq_take.mp hprefix)
        · exact Or.inr ⟨rfl, hinfix⟩
    · rename_i hfits
      constructor
      · intro h
        cases h
      · rintro ⟨rfl, hprefix | hinfix⟩
        · exact absurd hprefix.length_le hfits
        · exact absurd (Nat.le_succ_of_le hinfix.length_le) hfits

theorem Byte.any_same_iff {sought bytes : List UInt8} (hsought : sought ≠ []) :
    ((windows sought.length bytes).any fun window => same window sought) = true ↔
      sought.map lower <:+: bytes.map lower := by
  have hwidth : 0 < sought.length := List.length_pos_iff.mpr hsought
  rw [List.any_eq_true, List.infix_map_iff]
  constructor
  · rintro ⟨window, hwindow, hsame⟩
    exact ⟨window, ((mem_windows_iff hwidth).mp hwindow).2, (same_iff.mp hsame).symm⟩
  · rintro ⟨window, hinfix, hsame⟩
    have hlength : window.length = sought.length := by
      rw [← List.length_map lower, ← hsame, List.length_map]
    exact ⟨window, (mem_windows_iff hwidth).mpr ⟨hlength, hinfix⟩, same_iff.mpr hsame.symm⟩

theorem infix_folded_iff {as bs : List Char} :
    (utf8Bytes as).map Byte.lower <:+: (utf8Bytes bs).map Byte.lower ↔
      asciiLower as <:+: asciiLower bs := by
  rw [map_lower_utf8Bytes, map_lower_utf8Bytes, utf8Bytes_infix_iff]

/-- Only a search for the empty text has no answer. -/
theorem occursFolded?_eq_none_iff {needle cs : List Char} :
    occursFolded? needle cs = none ↔ needle = [] := by
  rw [occursFolded?, ← utf8Bytes_eq_nil_iff, ← List.length_eq_zero_iff]
  constructor
  · intro h
    split at h
    · cases h
    · split at h
      · assumption
      · cases h
  · intro h
    rw [if_neg (by omega), if_pos h]

theorem occursIn_iff {needle cs : List Char} : occursIn needle cs = true ↔ needle <:+: cs := by
  induction cs with
  | nil => rw [occursIn, List.isEmpty_iff, List.infix_nil]
  | cons c cs ih =>
    rw [occursIn, Bool.or_eq_true, List.isPrefixOf_iff_prefix, ih, List.infix_cons_iff]

/-- Any other text is found where it stands. -/
theorem occursFolded?_of_ne_nil {needle : List Char} (h : needle ≠ []) (cs : List Char) :
    occursFolded? needle cs = some (occursIn (asciiLower needle) (asciiLower cs)) := by
  have hbytes : utf8Bytes needle ≠ [] := mt utf8Bytes_eq_nil_iff.mp h
  rw [occursFolded?]
  split
  · rename_i hshort
    have hnot : ¬asciiLower needle <:+: asciiLower cs := by
      rw [← infix_folded_iff]
      intro hinfix
      have hle := hinfix.length_le
      rw [List.length_map, List.length_map] at hle
      omega
    rw [Bool.eq_false_iff.mpr (mt occursIn_iff.mp hnot)]
  · rw [if_neg (mt List.length_eq_zero_iff.mp hbytes), Option.some.injEq, Bool.eq_iff_iff,
      Byte.any_same_iff hbytes, infix_folded_iff, occursIn_iff]

theorem endsFolded_iff {ending cs : List Char} :
    endsFolded ending cs = true ↔ asciiLower ending <:+ asciiLower cs := by
  rw [← utf8Bytes_suffix_iff, ← map_lower_utf8Bytes, ← map_lower_utf8Bytes, endsFolded,
    Bool.and_eq_true, decide_eq_true_eq, Byte.same_iff, List.map_drop]
  constructor
  · rintro ⟨-, hsame⟩
    exact hsame ▸ List.drop_suffix _ _
  · intro h
    have hle := h.length_le
    have hdrop := List.suffix_iff_eq_drop.mp h
    rw [List.length_map, List.length_map] at hle hdrop
    exact ⟨hle, hdrop.symm⟩

end SqlAtlas.Text
