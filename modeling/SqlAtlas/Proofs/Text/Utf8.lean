import SqlAtlas.Cache.Key
import SqlAtlas.Text.Decode
import SqlAtlas.Text.Slice

/-!
# Bytes of characters

An ASCII character is one byte, and no byte of any other character is that of an ASCII one. The bytes of
a text are decoded to the text.
-/

namespace SqlAtlas.Text

set_option autoImplicit false

def lead (c : Char) : UInt8 := (String.utf8EncodeChar c).headD 0

theorem utf8Bytes_cons (c : Char) (cs : List Char) :
    utf8Bytes (c :: cs) = String.utf8EncodeChar c ++ utf8Bytes cs := List.flatMap_cons

theorem utf8Bytes_append (as bs : List Char) : utf8Bytes (as ++ bs) = utf8Bytes as ++ utf8Bytes bs :=
  List.flatMap_append

theorem length_utf8Bytes (cs : List Char) : (utf8Bytes cs).length = size cs := by
  induction cs with
  | nil => rfl
  | cons c cs ih => rw [utf8Bytes_cons, List.length_append, String.length_utf8EncodeChar, ih, size_cons]

theorem isAscii_iff {c : Char} : isAscii c = true ↔ c.val.toNat ≤ 127 := by
  rw [isAscii, decide_eq_true_eq]
  exact Nat.lt_succ_iff

theorem encode_of_isAscii {c : Char} (h : isAscii c) : String.utf8EncodeChar c = [c.toUInt8] := by
  rw [isAscii_iff] at h
  simp only [String.utf8EncodeChar, if_pos h]
  rfl

theorem lead_of_isAscii {c : Char} (h : isAscii c) : lead c = c.toUInt8 := by
  rw [lead, encode_of_isAscii h, List.headD_cons]

theorem ofNat_ge {n : Nat} (h : 128 ≤ n) (h' : n < 256) : 128 ≤ UInt8.ofNat n := by
  rw [UInt8.le_iff_toNat_le, UInt8.toNat_ofNat_of_lt' (by exact h')]
  exact h

theorem byte_ge_of_not_isAscii {c : Char} (h : isAscii c = false) {b : UInt8}
    (hb : b ∈ String.utf8EncodeChar c) : 128 ≤ b := by
  have hlarge : ¬c.val.toNat ≤ 127 := fun hle => by
    rw [isAscii_iff.mpr hle] at h
    cases h
  simp only [String.utf8EncodeChar, if_neg hlarge] at hb
  split at hb
  · simp only [List.mem_cons, List.not_mem_nil, or_false] at hb
    rcases hb with rfl | rfl <;> exact ofNat_ge (by omega) (by omega)
  · split at hb
    · simp only [List.mem_cons, List.not_mem_nil, or_false] at hb
      rcases hb with rfl | rfl | rfl <;> exact ofNat_ge (by omega) (by omega)
    · simp only [List.mem_cons, List.not_mem_nil, or_false] at hb
      rcases hb with rfl | rfl | rfl | rfl <;> exact ofNat_ge (by omega) (by omega)

theorem toNat_toUInt8_of_isAscii {c : Char} (h : isAscii c) : c.toUInt8.toNat = c.val.toNat := by
  rw [isAscii_iff] at h
  rw [Char.toUInt8, UInt32.toNat_toUInt8]
  omega

theorem lead_mem (c : Char) : lead c ∈ String.utf8EncodeChar c := by
  rw [lead, List.headD_eq_head?_getD]
  exact List.mem_of_mem_head? (by simp [List.head?_eq_some_head String.utf8EncodeChar_ne_nil])

theorem lead_eq_iff {a c : Char} (ha : isAscii a) : lead c = a.toUInt8 ↔ c = a := by
  constructor
  · intro h
    cases hc : isAscii c with
    | true =>
      have hval := congrArg UInt8.toNat (lead_of_isAscii hc ▸ h)
      rw [toNat_toUInt8_of_isAscii hc, toNat_toUInt8_of_isAscii ha] at hval
      exact Char.ext (UInt32.toNat_inj.mp hval)
    | false =>
      have hge := byte_ge_of_not_isAscii hc (lead_mem c)
      rw [h, UInt8.le_iff_toNat_le, toNat_toUInt8_of_isAscii ha] at hge
      rw [isAscii_iff] at ha
      exact absurd (Nat.le_trans hge ha) (by decide)
  · rintro rfl
    exact lead_of_isAscii ha

theorem head?_utf8Bytes (cs : List Char) : (utf8Bytes cs).head? = cs.head?.map lead := by
  cases cs with
  | nil => rfl
  | cons c cs =>
    rw [utf8Bytes_cons, List.head?_append, List.head?_eq_some_head String.utf8EncodeChar_ne_nil]
    simp [lead, List.headD_eq_head?_getD, List.head?_eq_some_head String.utf8EncodeChar_ne_nil]

/-! ### Decoding -/

theorem continuation?_ofNat {n : Nat} (h : n < 64) :
    continuation? (UInt8.ofNat (n + 128)) = some n := by
  revert n
  decide

theorem scalar?_val {least n : Nat} {c : Char} (hn : n = c.val.toNat) (h : least ≤ n) :
    scalar? least n = some c := by
  have hvalid := c.valid
  unfold UInt32.isValidChar Nat.isValidChar at hvalid
  rw [scalar?, if_pos ⟨h, by omega, by omega⟩, hn]
  exact congrArg some (Char.ofNat_toNat c)

theorem toNat_ofNat_of_lt {n : Nat} (h : n < 256) : (UInt8.ofNat n).toNat = n :=
  UInt8.toNat_ofNat_of_lt' h

theorem ofNat_lt_iff {n k : Nat} {u : UInt8} (hu : u.toNat = k) (hn : n < 256) :
    UInt8.ofNat n < u ↔ n < k := by
  rw [UInt8.lt_iff_toNat_lt, toNat_ofNat_of_lt hn, hu]

theorem not_ofNat_lt {n k : Nat} {u : UInt8} (hu : u.toNat = k) (hn : n < 256) (h : k ≤ n) :
    ¬UInt8.ofNat n < u := by
  rw [ofNat_lt_iff hu hn]
  exact Nat.not_lt.mpr h

theorem decodeUtf8_one {n : Nat} {c : Char} (hn : n < 128) (hc : n = c.val.toNat)
    (bytes : List UInt8) :
    decodeUtf8 (UInt8.ofNat n :: bytes) = (decodeUtf8 bytes).map (c :: ·) := by
  have hbound : n < 256 := by omega
  have hone : UInt8.ofNat n < 0x80 := (ofNat_lt_iff (k := 128) rfl hbound).mpr hn
  have hvalue : Char.ofNat n = c := hc ▸ Char.ofNat_toNat c
  rw [decodeUtf8.eq_def]
  simp only [if_pos hone, toNat_ofNat_of_lt hbound, hvalue]

theorem decodeUtf8_two {x y : Nat} {c : Char} (hx : x < 32) (hy : y < 64)
    (hc : x * 64 + y = c.val.toNat) (hleast : 0x80 ≤ x * 64 + y) (bytes : List UInt8) :
    decodeUtf8 (UInt8.ofNat (x + 192) :: UInt8.ofNat (y + 128) :: bytes) =
      (decodeUtf8 bytes).map (c :: ·) := by
  have hbound : x + 192 < 256 := by omega
  have hone : ¬UInt8.ofNat (x + 192) < 0x80 := not_ofNat_lt (k := 128) rfl hbound (by omega)
  have htwo : UInt8.ofNat (x + 192) < 0xE0 := (ofNat_lt_iff (k := 224) rfl hbound).mpr (by omega)
  have hlead : ¬UInt8.ofNat (x + 192) < 0xC0 := not_ofNat_lt (k := 192) rfl hbound (by omega)
  have hvalue : scalar? 0x80 ((x + 192 - 0xC0) * 64 + y) = some c :=
    scalar?_val (by omega) (by omega)
  rw [decodeUtf8.eq_def]
  simp only [if_neg hone, continuation?_ofNat hy, if_pos htwo, if_neg hlead,
    toNat_ofNat_of_lt hbound, hvalue]

theorem decodeUtf8_three {x y z : Nat} {c : Char} (hx : x < 16) (hy : y < 64) (hz : z < 64)
    (hc : (x * 64 + y) * 64 + z = c.val.toNat) (hleast : 0x800 ≤ (x * 64 + y) * 64 + z)
    (bytes : List UInt8) :
    decodeUtf8 (UInt8.ofNat (x + 224) :: UInt8.ofNat (y + 128) :: UInt8.ofNat (z + 128) :: bytes) =
      (decodeUtf8 bytes).map (c :: ·) := by
  have hbound : x + 224 < 256 := by omega
  have hone : ¬UInt8.ofNat (x + 224) < 0x80 := not_ofNat_lt (k := 128) rfl hbound (by omega)
  have htwo : ¬UInt8.ofNat (x + 224) < 0xE0 := not_ofNat_lt (k := 224) rfl hbound (by omega)
  have hthree : UInt8.ofNat (x + 224) < 0xF0 := (ofNat_lt_iff (k := 240) rfl hbound).mpr (by omega)
  have hvalue : scalar? 0x800 (((x + 224 - 0xE0) * 64 + y) * 64 + z) = some c :=
    scalar?_val (by omega) (by omega)
  rw [decodeUtf8.eq_def]
  simp only [if_neg hone, continuation?_ofNat hy, continuation?_ofNat hz, if_neg htwo, if_pos hthree,
    toNat_ofNat_of_lt hbound, hvalue]

theorem decodeUtf8_four {w x y z : Nat} {c : Char} (hw : w < 8) (hx : x < 64) (hy : y < 64)
    (hz : z < 64) (hc : ((w * 64 + x) * 64 + y) * 64 + z = c.val.toNat)
    (hleast : 0x10000 ≤ ((w * 64 + x) * 64 + y) * 64 + z) (bytes : List UInt8) :
    decodeUtf8 (UInt8.ofNat (w + 240) :: UInt8.ofNat (x + 128) :: UInt8.ofNat (y + 128) ::
      UInt8.ofNat (z + 128) :: bytes) = (decodeUtf8 bytes).map (c :: ·) := by
  have hbound : w + 240 < 256 := by omega
  have hone : ¬UInt8.ofNat (w + 240) < 0x80 := not_ofNat_lt (k := 128) rfl hbound (by omega)
  have htwo : ¬UInt8.ofNat (w + 240) < 0xE0 := not_ofNat_lt (k := 224) rfl hbound (by omega)
  have hthree : ¬UInt8.ofNat (w + 240) < 0xF0 := not_ofNat_lt (k := 240) rfl hbound (by omega)
  have hvalue : scalar? 0x10000 ((((w + 240 - 0xF0) * 64 + x) * 64 + y) * 64 + z) = some c :=
    scalar?_val (by omega) (by omega)
  rw [decodeUtf8.eq_def]
  simp only [if_neg hone, continuation?_ofNat hx, continuation?_ofNat hy, continuation?_ofNat hz,
    if_neg htwo, if_neg hthree, toNat_ofNat_of_lt hbound, hvalue]

theorem decodeUtf8_encode (c : Char) (bytes : List UInt8) :
    decodeUtf8 (String.utf8EncodeChar c ++ bytes) = (decodeUtf8 bytes).map (c :: ·) := by
  have hvalid := c.valid
  unfold UInt32.isValidChar Nat.isValidChar at hvalid
  simp only [String.utf8EncodeChar]
  split
  · exact decodeUtf8_one (by omega) rfl bytes
  · split
    · exact decodeUtf8_two (by omega) (by omega) (by omega) (by omega) bytes
    · split
      · exact decodeUtf8_three (by omega) (by omega) (by omega) (by omega) (by omega) bytes
      · exact decodeUtf8_four (by omega) (by omega) (by omega) (by omega) (by omega) (by omega) bytes

theorem decodeUtf8_utf8Bytes (cs : List Char) : decodeUtf8 (utf8Bytes cs) = some cs := by
  induction cs with
  | nil => rfl
  | cons c cs ih => rw [utf8Bytes_cons, decodeUtf8_encode, ih, Option.map_some]

end SqlAtlas.Text
