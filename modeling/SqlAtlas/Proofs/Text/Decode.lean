import SqlAtlas.Proofs.Text.Utf8

/-!
# What a file says

A file that is UTF-8 says what its bytes encode. Any other file is read byte by byte in code page 1252,
unless it begins with a byte order mark: then it is text in UTF-16, or cannot be read.
-/

namespace SqlAtlas.Text

set_option autoImplicit false

/-! ### UTF-8 -/

theorem eq_of_continuation? {b : UInt8} {k : Nat} (h : continuation? b = some k) :
    b = UInt8.ofNat (k + 128) ∧ k < 64 := by
  have hall : ∀ n : Fin 256, ∀ k ∈ continuation? (UInt8.ofNat n.val),
      UInt8.ofNat n.val = UInt8.ofNat (k + 128) ∧ k < 64 := by decide +kernel
  have hb := hall ⟨b.toNat, b.toNat_lt⟩ k
  rw [UInt8.ofNat_toNat] at hb
  exact hb h

theorem val_ofNat {n : Nat} (h : n < 0x110000) (h' : n < 0xD800 ∨ 0xE000 ≤ n) :
    (Char.ofNat n).val.toNat = n := by
  have hvalid : n.isValidChar := by
    unfold Nat.isValidChar
    omega
  rw [Char.ofNat, dif_pos hvalid]
  rfl

theorem val_of_scalar? {least n : Nat} {c : Char} (h : scalar? least n = some c) :
    n = c.val.toNat ∧ least ≤ n := by
  rw [scalar?] at h
  split at h
  · rename_i hn
    obtain ⟨hleast, hbound, hsurrogate⟩ := hn
    cases h
    exact ⟨(val_ofNat hbound (by omega)).symm, hleast⟩
  · cases h

theorem encode_one {n : Nat} {c : Char} (hn : n < 128) (hc : n = c.val.toNat) :
    String.utf8EncodeChar c = [UInt8.ofNat n] := by
  simp only [String.utf8EncodeChar, ← hc]
  rw [if_pos (by omega)]

theorem encode_two {x y : Nat} {c : Char} (hx : x < 32) (hy : y < 64)
    (hc : x * 64 + y = c.val.toNat) (hleast : 0x80 ≤ x * 64 + y) :
    String.utf8EncodeChar c = [UInt8.ofNat (x + 192), UInt8.ofNat (y + 128)] := by
  have hhigh : (x * 64 + y) / 64 % 32 = x := by omega
  have hlow : (x * 64 + y) % 64 = y := by omega
  simp only [String.utf8EncodeChar, ← hc]
  rw [if_neg (by omega), if_pos (by omega), hhigh, hlow]

theorem encode_three {x y z : Nat} {c : Char} (hx : x < 16) (hy : y < 64) (hz : z < 64)
    (hc : (x * 64 + y) * 64 + z = c.val.toNat) (hleast : 0x800 ≤ (x * 64 + y) * 64 + z) :
    String.utf8EncodeChar c =
      [UInt8.ofNat (x + 224), UInt8.ofNat (y + 128), UInt8.ofNat (z + 128)] := by
  have hhigh : ((x * 64 + y) * 64 + z) / 4096 % 16 = x := by omega
  have hmiddle : ((x * 64 + y) * 64 + z) / 64 % 64 = y := by omega
  have hlow : ((x * 64 + y) * 64 + z) % 64 = z := by omega
  simp only [String.utf8EncodeChar, ← hc]
  rw [if_neg (by omega), if_neg (by omega), if_pos (by omega), hhigh, hmiddle, hlow]

theorem encode_four {w x y z : Nat} {c : Char} (hw : w < 16) (hx : x < 64) (hy : y < 64) (hz : z < 64)
    (hc : ((w * 64 + x) * 64 + y) * 64 + z = c.val.toNat)
    (hleast : 0x10000 ≤ ((w * 64 + x) * 64 + y) * 64 + z) : String.utf8EncodeChar c =
      [UInt8.ofNat (w + 240), UInt8.ofNat (x + 128), UInt8.ofNat (y + 128), UInt8.ofNat (z + 128)] := by
  have hvalid := c.valid
  unfold UInt32.isValidChar Nat.isValidChar at hvalid
  have htop : (((w * 64 + x) * 64 + y) * 64 + z) / 262144 % 8 = w := by omega
  have hhigh : (((w * 64 + x) * 64 + y) * 64 + z) / 4096 % 64 = x := by omega
  have hmiddle : (((w * 64 + x) * 64 + y) * 64 + z) / 64 % 64 = y := by omega
  have hlow : (((w * 64 + x) * 64 + y) * 64 + z) % 64 = z := by omega
  simp only [String.utf8EncodeChar, ← hc]
  rw [if_neg (by omega), if_neg (by omega), if_neg (by omega), htop, hhigh, hmiddle, hlow]

/-- A leading byte by what it adds to the lowest one of its kind. -/
theorem eq_ofNat_sub {a : UInt8} {k : Nat} (h : k ≤ a.toNat) : a = UInt8.ofNat (a.toNat - k + k) := by
  rw [Nat.sub_add_cancel h, UInt8.ofNat_toNat]

theorem eq_utf8Bytes {bytes : List UInt8} {cs : List Char} (h : decodeUtf8 bytes = some cs) :
    bytes = utf8Bytes cs := by
  fun_induction decodeUtf8 bytes generalizing cs with
  | case1 =>
    cases h
    rfl
  | case2 a rest hone ih =>
    obtain ⟨cs, hcs, rfl⟩ := Option.map_eq_some_iff.mp h
    rw [UInt8.lt_iff_toNat_lt] at hone
    change a.toNat < 128 at hone
    have hvalue := val_ofNat (n := a.toNat) (by omega) (by omega)
    rw [utf8Bytes_cons, encode_one hone hvalue.symm, UInt8.ofNat_toNat, ih hcs]
    rfl
  | case3 => cases h
  | case4 => cases h
  | case5 => cases h
  | case6 => cases h
  | case7 a hone b rest y hy htwo hlead c hc ih =>
    obtain ⟨cs, hcs, rfl⟩ := Option.map_eq_some_iff.mp h
    rw [UInt8.lt_iff_toNat_lt] at htwo hlead
    obtain ⟨rfl, hy'⟩ := eq_of_continuation? hy
    obtain ⟨hvalue, hleast⟩ := val_of_scalar? hc
    change a.toNat < 224 at htwo
    change ¬a.toNat < 192 at hlead
    rw [utf8Bytes_cons, encode_two (by omega) hy' hvalue hleast, ← eq_ofNat_sub (by omega), ih hcs]
    rfl
  | case8 => cases h
  | case9 => cases h
  | case10 => cases h
  | case11 a hone b y hy htwo c rest z hz hthree d hd ih =>
    obtain ⟨cs, hcs, rfl⟩ := Option.map_eq_some_iff.mp h
    rw [UInt8.lt_iff_toNat_lt] at htwo hthree
    obtain ⟨rfl, hy'⟩ := eq_of_continuation? hy
    obtain ⟨rfl, hz'⟩ := eq_of_continuation? hz
    obtain ⟨hvalue, hleast⟩ := val_of_scalar? hd
    change ¬a.toNat < 224 at htwo
    change a.toNat < 240 at hthree
    rw [utf8Bytes_cons, encode_three (by omega) hy' hz' hvalue hleast, ← eq_ofNat_sub (by omega), ih hcs]
    rfl
  | case12 => cases h
  | case13 => cases h
  | case14 => cases h
  | case15 a hone b x hx htwo c y hy hthree d rest z hz e he ih =>
    obtain ⟨cs, hcs, rfl⟩ := Option.map_eq_some_iff.mp h
    rw [UInt8.lt_iff_toNat_lt] at hthree
    obtain ⟨rfl, hx'⟩ := eq_of_continuation? hx
    obtain ⟨rfl, hy'⟩ := eq_of_continuation? hy
    obtain ⟨rfl, hz'⟩ := eq_of_continuation? hz
    obtain ⟨hvalue, hleast⟩ := val_of_scalar? he
    change ¬a.toNat < 240 at hthree
    have hbound := a.toNat_lt
    rw [utf8Bytes_cons, encode_four (by omega) hx' hy' hz' hvalue hleast, ← eq_ofNat_sub (by omega), ih hcs]
    rfl

theorem decodeUtf8_eq_some_iff {bytes : List UInt8} {cs : List Char} :
    decodeUtf8 bytes = some cs ↔ bytes = utf8Bytes cs := by
  constructor
  · exact eq_utf8Bytes
  · rintro rfl
    exact decodeUtf8_utf8Bytes cs

/-! ### UTF-16 -/

inductive ByteOrder where
  | lowFirst
  | highFirst

namespace ByteOrder

def unit : ByteOrder → UInt8 → UInt8 → Nat
  | lowFirst => Text.lowFirst
  | highFirst => Text.highFirst

def pair (u : Nat) : ByteOrder → List UInt8
  | lowFirst => [UInt8.ofNat u, UInt8.ofNat (u / 256)]
  | highFirst => [UInt8.ofNat (u / 256), UInt8.ofNat u]

end ByteOrder

def utf16Units (c : Char) : List Nat :=
  let v := c.val.toNat
  if v < 0x10000 then [v] else [0xD800 + (v - 0x10000) / 0x400, 0xDC00 + (v - 0x10000) % 0x400]

def utf16Bytes (o : ByteOrder) (cs : List Char) : List UInt8 :=
  (cs.flatMap utf16Units).flatMap fun u => o.pair u

theorem unit_pair (o : ByteOrder) {u : Nat} (hu : u < 0x10000) (rest : List UInt8) :
    units o.unit (o.pair u ++ rest) = (units o.unit rest).map (u :: ·) := by
  have hvalue : Text.lowFirst (UInt8.ofNat u) (UInt8.ofNat (u / 256)) = u := by
    rw [lowFirst, UInt8.toNat_ofNat', UInt8.toNat_ofNat']
    omega
  cases o with
  | lowFirst =>
    change (units _ rest).map (Text.lowFirst _ _ :: ·) = _
    rw [hvalue]
  | highFirst =>
    change (units _ rest).map (Text.highFirst _ _ :: ·) = _
    rw [highFirst, hvalue]

theorem pair_unit (o : ByteOrder) (a b : UInt8) :
    o.pair (o.unit a b) = [a, b] ∧ o.unit a b < 0x10000 := by
  have hlow : ∀ a b : UInt8, UInt8.ofNat (Text.lowFirst a b) = a ∧
      UInt8.ofNat (Text.lowFirst a b / 256) = b ∧ Text.lowFirst a b < 0x10000 := by
    intro a b
    have ha := a.toNat_lt
    have hb := b.toNat_lt
    refine ⟨UInt8.toNat_inj.mp ?_, UInt8.toNat_inj.mp ?_, ?_⟩
    · rw [UInt8.toNat_ofNat', lowFirst]
      omega
    · rw [UInt8.toNat_ofNat', lowFirst]
      omega
    · rw [lowFirst]
      omega
  cases o with
  | lowFirst =>
    obtain ⟨ha, hb, hbound⟩ := hlow a b
    exact ⟨by rw [ByteOrder.pair, ByteOrder.unit, ha, hb], hbound⟩
  | highFirst =>
    obtain ⟨hb, ha, hbound⟩ := hlow b a
    exact ⟨by rw [ByteOrder.pair, ByteOrder.unit, highFirst, ha, hb], hbound⟩

theorem units_pairs (o : ByteOrder) {us : List Nat} (hus : ∀ u ∈ us, u < 0x10000) :
    units o.unit (us.flatMap fun u => o.pair u) = some us := by
  induction us with
  | nil => rfl
  | cons u us ih =>
    rw [List.flatMap_cons, unit_pair o (hus u List.mem_cons_self),
      ih fun v hv => hus v (List.mem_cons_of_mem u hv)]
    rfl

theorem eq_pairs_of_units (o : ByteOrder) {bytes : List UInt8} {us : List Nat}
    (h : units o.unit bytes = some us) :
    bytes = us.flatMap (fun u => o.pair u) ∧ ∀ u ∈ us, u < 0x10000 := by
  fun_induction units o.unit bytes generalizing us with
  | case1 =>
    cases h
    exact ⟨rfl, nofun⟩
  | case2 => cases h
  | case3 a b rest ih =>
    obtain ⟨us, hus, rfl⟩ := Option.map_eq_some_iff.mp h
    obtain ⟨rfl, hbounds⟩ := ih hus
    obtain ⟨hpair, hbound⟩ := pair_unit o a b
    refine ⟨by rw [List.flatMap_cons, hpair]; rfl, ?_⟩
    rintro u (_ | ⟨_, hu⟩)
    · exact hbound
    · exact hbounds u hu

theorem utf16Units_bound {c : Char} {u : Nat} (h : u ∈ utf16Units c) : u < 0x10000 := by
  have hvalid := c.valid
  unfold UInt32.isValidChar Nat.isValidChar at hvalid
  rw [utf16Units] at h
  split at h
  · rw [List.mem_singleton.mp h]
    assumption
  · simp only [List.mem_cons, List.not_mem_nil, or_false] at h
    omega

theorem decodeUtf16_units (c : Char) (us : List Nat) :
    decodeUtf16 (utf16Units c ++ us) = (decodeUtf16 us).map (c :: ·) := by
  have hvalid := c.valid
  unfold UInt32.isValidChar Nat.isValidChar at hvalid
  simp only [utf16Units]
  split
  · have hplain : c.val.toNat < 0xD800 ∨ 0xE000 ≤ c.val.toNat := by omega
    rw [List.singleton_append, decodeUtf16.eq_def]
    simp only [if_pos hplain]
    exact congrArg (fun d => (decodeUtf16 us).map (d :: ·)) (Char.ofNat_toNat c)
  · have hvalue : 0x10000 + (0xD800 + (c.val.toNat - 0x10000) / 0x400 - 0xD800) * 0x400 +
        (0xDC00 + (c.val.toNat - 0x10000) % 0x400 - 0xDC00) = c.val.toNat := by omega
    rw [List.cons_append, List.singleton_append, decodeUtf16.eq_def]
    simp only
    rw [if_neg (by omega), if_neg (by omega), if_pos (by omega), hvalue]
    exact congrArg (fun d => (decodeUtf16 us).map (d :: ·)) (Char.ofNat_toNat c)

theorem decodeUtf16_flatMap (cs : List Char) : decodeUtf16 (cs.flatMap utf16Units) = some cs := by
  induction cs with
  | nil => rfl
  | cons c cs ih => rw [List.flatMap_cons, decodeUtf16_units, ih, Option.map_some]

theorem eq_flatMap_of_decodeUtf16 {us : List Nat} {cs : List Char} (hus : ∀ u ∈ us, u < 0x10000)
    (h : decodeUtf16 us = some cs) : us = cs.flatMap utf16Units := by
  fun_induction decodeUtf16 us generalizing cs with
  | case1 =>
    cases h
    rfl
  | case2 u us hplain ih =>
    obtain ⟨cs, hcs, rfl⟩ := Option.map_eq_some_iff.mp h
    have hu := hus u List.mem_cons_self
    have hunits : utf16Units (Char.ofNat u) = [u] := by
      simp only [utf16Units, val_ofNat (by omega) hplain, if_pos hu]
    rw [List.flatMap_cons, hunits, ← ih (fun v hv => hus v (List.mem_cons_of_mem u hv)) hcs]
    rfl
  | case3 => cases h
  | case4 => cases h
  | case5 u hsurrogate hhigh v us hlow ih =>
    obtain ⟨cs, hcs, rfl⟩ := Option.map_eq_some_iff.mp h
    have hrest : ∀ w ∈ us, w < 0x10000 := fun w hw =>
      hus w (List.mem_cons_of_mem u (List.mem_cons_of_mem v hw))
    have hunits : utf16Units (Char.ofNat (0x10000 + (u - 0xD800) * 0x400 + (v - 0xDC00))) = [u, v] := by
      have hfirst : 0xD800 + (0x10000 + (u - 0xD800) * 0x400 + (v - 0xDC00) - 0x10000) / 0x400 = u := by
        omega
      have hsecond : 0xDC00 + (0x10000 + (u - 0xD800) * 0x400 + (v - 0xDC00) - 0x10000) % 0x400 = v := by
        omega
      simp only [utf16Units, val_ofNat (n := 0x10000 + (u - 0xD800) * 0x400 + (v - 0xDC00)) (by omega)
        (.inr (by omega)), hfirst, hsecond]
      rw [if_neg (by omega)]
    rw [List.flatMap_cons, hunits, ← ih hrest hcs]
    rfl
  | case6 => cases h

theorem decodeUtf16_eq_some_iff (o : ByteOrder) {bytes : List UInt8} {cs : List Char} :
    (units o.unit bytes).bind decodeUtf16 = some cs ↔ bytes = utf16Bytes o cs := by
  constructor
  · intro h
    obtain ⟨us, hus, hcs⟩ := Option.bind_eq_some_iff.mp h
    obtain ⟨rfl, hbounds⟩ := eq_pairs_of_units o hus
    rw [utf16Bytes, ← eq_flatMap_of_decodeUtf16 hbounds hcs]
  · rintro rfl
    have hbounds : ∀ u ∈ cs.flatMap utf16Units, u < 0x10000 := by
      intro u hu
      obtain ⟨c, _, hu⟩ := List.mem_flatMap.mp hu
      exact utf16Units_bound hu
    rw [utf16Bytes, units_pairs o hbounds]
    exact decodeUtf16_flatMap cs

/-! ### Files -/

def Marked (bytes : List UInt8) : Prop :=
  utf8Bytes ['\uFEFF'] <+: bytes ∨ ∃ o, utf16Bytes o ['\uFEFF'] <+: bytes

/-- What the bytes of a file say, if they can be read. -/
inductive Reads : List UInt8 → Option (List Char) → Prop where
  | utf8 (cs : List Char) : Reads (utf8Bytes cs) (some (dropMark cs))
  | utf16 (o : ByteOrder) (cs : List Char) : Reads (utf16Bytes o ('\uFEFF' :: cs)) (some (dropMark cs))
  | western {bytes : List UInt8} : (∀ cs, bytes ≠ utf8Bytes cs) → ¬Marked bytes →
    Reads bytes (some (bytes.map westernChar))
  | unreadable {bytes : List UInt8} : (∀ cs, bytes ≠ utf8Bytes cs) → Marked bytes →
    (∀ o cs, bytes ≠ utf16Bytes o ('\uFEFF' :: cs)) → Reads bytes none

/-- No byte of the code page stands for a byte order mark. -/
theorem dropMark_western (bytes : List UInt8) :
    dropMark (bytes.map westernChar) = bytes.map westernChar := by
  cases bytes with
  | nil => rfl
  | cons b bytes =>
    have hall : ∀ n : Fin 256, westernChar (UInt8.ofNat n.val) ≠ '\uFEFF' := by decide +kernel
    have hb := hall ⟨b.toNat, b.toNat_lt⟩
    rw [UInt8.ofNat_toNat] at hb
    rw [List.map_cons, dropMark.eq_2]
    intro cs hcs
    exact hb (List.cons.inj hcs).1

theorem decodeUtf8_eq_none_iff {bytes : List UInt8} :
    decodeUtf8 bytes = none ↔ ∀ cs, bytes ≠ utf8Bytes cs := by
  rw [Option.eq_none_iff_forall_ne_some]
  exact forall_congr' fun cs => not_congr decodeUtf8_eq_some_iff

theorem decodeFile_of_not_utf8 {bytes : List UInt8} (h : ∀ cs, bytes ≠ utf8Bytes cs) :
    decodeFile bytes = (decodeMarked bytes).map dropMark := by
  rw [decodeFile, decodeUtf8_eq_none_iff.mpr h]
  rfl

theorem decodeMarked_utf16 (o : ByteOrder) (rest : List UInt8) :
    decodeMarked (utf16Bytes o ['\uFEFF'] ++ rest) = (units o.unit rest).bind decodeUtf16 := by
  cases o with
  | lowFirst => rfl
  | highFirst => rfl

theorem lead_lt (c : Char) : (lead c).toNat < 0xF8 := by
  simp only [lead, String.utf8EncodeChar]
  split
  · rw [List.headD_cons, UInt8.toNat_ofNat']
    omega
  · split
    · rw [List.headD_cons, UInt8.toNat_ofNat']
      omega
    · split
      · rw [List.headD_cons, UInt8.toNat_ofNat']
        omega
      · rw [List.headD_cons, UInt8.toNat_ofNat']
        omega

/-- Text in UTF-16 behind a mark is not UTF-8: its first byte begins no character. -/
theorem utf16Bytes_ne_utf8Bytes (o : ByteOrder) (rest : List UInt8) (cs : List Char) :
    utf16Bytes o ['\uFEFF'] ++ rest ≠ utf8Bytes cs := by
  intro h
  have hhead := congrArg List.head? h
  rw [head?_utf8Bytes] at hhead
  cases cs with
  | nil => cases o <;> cases hhead
  | cons c cs =>
    have hlt := lead_lt c
    cases o with
    | lowFirst =>
      rw [← Option.some.inj hhead] at hlt
      exact absurd hlt (by decide)
    | highFirst =>
      rw [← Option.some.inj hhead] at hlt
      exact absurd hlt (by decide)

theorem utf16Bytes_cons (o : ByteOrder) (c : Char) (cs : List Char) :
    utf16Bytes o (c :: cs) = utf16Bytes o [c] ++ utf16Bytes o cs := by
  rw [utf16Bytes, utf16Bytes, utf16Bytes, List.flatMap_cons, List.flatMap_append, List.flatMap_singleton]

theorem decodeFile_utf8 (cs : List Char) : decodeFile (utf8Bytes cs) = some (dropMark cs) := by
  rw [decodeFile, decodeUtf8_utf8Bytes]
  rfl

theorem decodeFile_utf16 (o : ByteOrder) (cs : List Char) :
    decodeFile (utf16Bytes o ('\uFEFF' :: cs)) = some (dropMark cs) := by
  rw [utf16Bytes_cons, decodeFile_of_not_utf8 (utf16Bytes_ne_utf8Bytes o _), decodeMarked_utf16,
    (decodeUtf16_eq_some_iff o).mpr rfl]
  rfl

theorem decodeFile_western {bytes : List UInt8} (h : ∀ cs, bytes ≠ utf8Bytes cs) (hmark : ¬Marked bytes) :
    decodeFile bytes = some (bytes.map westernChar) := by
  have hplain : decodeMarked bytes = some (bytes.map westernChar) := by
    rw [decodeMarked.eq_4]
    · rintro rest rfl
      exact hmark (.inl ⟨rest, rfl⟩)
    · rintro rest rfl
      exact hmark (.inr ⟨.lowFirst, rest, rfl⟩)
    · rintro rest rfl
      exact hmark (.inr ⟨.highFirst, rest, rfl⟩)
  rw [decodeFile_of_not_utf8 h, hplain, Option.map_some, dropMark_western]

theorem decodeFile_unreadable {bytes : List UInt8} (h : ∀ cs, bytes ≠ utf8Bytes cs) (hmark : Marked bytes)
    (h' : ∀ o cs, bytes ≠ utf16Bytes o ('\uFEFF' :: cs)) : decodeFile bytes = none := by
  rw [decodeFile_of_not_utf8 h, Option.map_eq_none_iff]
  rcases hmark with ⟨rest, rfl⟩ | ⟨o, rest, rfl⟩
  · -- the mark is UTF-8, so what stands behind it is not
    refine decodeUtf8_eq_none_iff.mpr fun cs hcs => h ('\uFEFF' :: cs) ?_
    change rest = utf8Bytes cs at hcs
    rw [hcs]
    rfl
  · rw [decodeMarked_utf16, Option.eq_none_iff_forall_ne_some]
    intro cs hcs
    apply h' o cs
    rw [utf16Bytes_cons o '\uFEFF' cs, ← (decodeUtf16_eq_some_iff o).mp hcs]

/-- A file is read as what its bytes say. It can be read if it is UTF-8 or begins with no mark; else only
if it is UTF-16 behind its mark. -/
theorem reads_iff (bytes : List UInt8) (text : Option (List Char)) :
    Reads bytes text ↔ text = decodeFile bytes := by
  constructor
  · rintro (cs | ⟨o, cs⟩ | ⟨h, hmark⟩ | ⟨h, hmark, h'⟩)
    · exact (decodeFile_utf8 cs).symm
    · exact (decodeFile_utf16 o cs).symm
    · exact (decodeFile_western h hmark).symm
    · exact (decodeFile_unreadable h hmark h').symm
  · rintro rfl
    by_cases hutf8 : ∃ cs, bytes = utf8Bytes cs
    · obtain ⟨cs, rfl⟩ := hutf8
      rw [decodeFile_utf8]
      exact .utf8 cs
    by_cases hutf16 : ∃ o cs, bytes = utf16Bytes o ('\uFEFF' :: cs)
    · obtain ⟨o, cs, rfl⟩ := hutf16
      rw [decodeFile_utf16]
      exact .utf16 o cs
    rw [not_exists] at hutf8
    simp only [not_exists] at hutf16
    by_cases hmark : Marked bytes
    · rw [decodeFile_unreadable hutf8 hmark hutf16]
      exact .unreadable hutf8 hmark hutf16
    · rw [decodeFile_western hutf8 hmark]
      exact .western hutf8 hmark

/-- Not every file can be read: one that is not UTF-8 and begins with a mark of UTF-16 may break off
inside a unit, though every byte has its place in the code page. -/
theorem marked_unreadable :
    ¬(∀ bytes, decodeUtf8 bytes = none → decodeFile bytes = some (dropMark (bytes.map westernChar))) ∧
      decodeFile [0xFF, 0xFE, 0x41] = none := by
  have hnone : decodeFile [0xFF, 0xFE, 0x41] = none := by decide
  refine ⟨fun h => ?_, hnone⟩
  have hread := h [0xFF, 0xFE, 0x41] (by decide)
  rw [hnone] at hread
  cases hread

end SqlAtlas.Text
