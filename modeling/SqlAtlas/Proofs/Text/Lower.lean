import SqlAtlas.Text.Blank
import SqlAtlas.Text.Lower

/-!
# Lowercasing settles

What lowercasing makes of a character is left alone when it is lowercased again, and it is
punctuation only if the character was. The table of case shifts is checked row against row: no row
moves a character to where another row, a blank or ASCII punctuation stands.
-/

namespace SqlAtlas.Text

set_option autoImplicit false

/-! ### The table -/

namespace CaseShift

def low (row : CaseShift) : Nat := ((row.first : Int) + row.shift).toNat

def high (row : CaseShift) : Nat := ((row.last : Int) + row.shift).toNat

def misses (row : CaseShift) (first last : Nat) : Bool :=
  Nat.blt row.high first || Nat.blt last row.low

/-- Whether a row moves no character to one that another row moves. Two rows of every other
character may lie in one range if they do not meet in it. -/
def clears (row other : CaseShift) : Bool :=
  row.misses other.first other.last ||
    ((row.low == row.high || row.step == 2) && other.step == 2 && row.low % 2 != other.first % 2)

/-- Whether a row moves characters beyond ASCII that are no blanks to characters that stay. -/
def lands (row : CaseShift) : Bool :=
  decide (0 ≤ (row.first : Int) + row.shift) && decide (0x80 ≤ row.first) &&
    blankRanges.all (fun r => Nat.blt row.last r.1 || Nat.blt r.2 row.first) &&
    (row.misses 0 0x60 && row.misses 0x7b 0x7f && row.misses 0xd800 0xdfff &&
      decide (row.high < 0x110000)) &&
    (row.misses 0x130 0x130 && row.misses 0x3a3 0x3a3) &&
    blankRanges.all (fun r => row.misses r.1 r.2) && lowerShifts.all row.clears

end CaseShift

theorem lowerShifts_land : lowerShifts.all CaseShift.lands = true := by decide +kernel

/-- Blanks, and the ASCII characters that are no letters. -/
def isPunctuation (c : Char) : Bool := isBlank c || (isAscii c && !c.isAlpha)

/-- A character that lowercasing leaves alone, wherever it stands. -/
structure IsLower (c : Char) : Prop where
  fixed : lowerChar c = c
  ne_dotted : c ≠ '\u0130'
  ne_sigma : c ≠ '\u03a3'

namespace CaseShift

theorem covers_iff (row : CaseShift) (n : Nat) :
    row.covers n = true ↔ row.first ≤ n ∧ n ≤ row.last ∧ (n - row.first) % row.step = 0 := by
  simp [covers, and_assoc]

theorem misses_iff (row : CaseShift) (first last : Nat) :
    row.misses first last = true ↔ row.high < first ∨ last < row.low := by
  simp [misses, Nat.blt_eq]

/-- What a row makes of a character lies in its range, and with it meets no other row. -/
theorem not_covers_image {row other : CaseShift} {n : Nat} (hn : row.covers n = true)
    (hstart : 0 ≤ (row.first : Int) + row.shift) (hclears : row.clears other = true) :
    other.covers ((n : Int) + row.shift).toNat = false := by
  rw [covers_iff] at hn
  rw [Bool.eq_false_iff, Ne, covers_iff]
  rintro ⟨hfirst, hlast, hstep⟩
  obtain ⟨hlow, hhigh, hrow⟩ := hn
  simp only [clears, Bool.or_eq_true, misses_iff, Bool.and_eq_true, beq_iff_eq, bne_iff_ne,
    CaseShift.low, CaseShift.high] at hclears
  rcases hclears with hmiss | ⟨⟨hsingle | htwo, hother⟩, hparity⟩
  · omega
  · rw [hother] at hstep
    omega
  · rw [htwo] at hrow
    rw [hother] at hstep
    omega

end CaseShift

/-! ### One character -/

/-- A character beyond ASCII stays, or moves as a row of the table says. -/
theorem lowerChar_beyond {c : Char} (h : isAscii c = false) : lowerChar c = c ∨
    ∃ row ∈ lowerShifts, row.covers c.toNat = true ∧
      lowerChar c = Char.ofNat ((c.toNat : Int) + row.shift).toNat := by
  rw [lowerChar, if_neg (by simp [h])]
  cases hrow : lowerShifts.find? (·.covers c.toNat) with
  | none => exact .inl rfl
  | some row =>
    have hcovers := List.find?_some hrow
    exact .inr ⟨row, List.mem_of_find?_eq_some hrow, hcovers, rfl⟩

theorem lowerChar_of_clear {c : Char} (hascii : isAscii c = false)
    (h : ∀ row ∈ lowerShifts, row.covers c.toNat = false) : lowerChar c = c := by
  rw [lowerChar, if_neg (by simp [hascii]), List.find?_eq_none.mpr fun row hrow => by simp [h row hrow]]

theorem toNat_ofNat {n : Nat} (h : n < 0xd800 ∨ 0xdfff < n ∧ n < 0x110000) :
    (Char.ofNat n).toNat = n := by
  have hvalid : n.isValidChar := h
  rw [Char.ofNat, dif_pos hvalid]
  rfl

theorem ascii_cases {P : Char → Prop} (h : ∀ n < 0x80, P (Char.ofNat n)) {c : Char}
    (hc : isAscii c = true) : P c := by
  have hat := h c.toNat (by simpa [isAscii] using hc)
  rwa [Char.ofNat_toNat] at hat

theorem isLower_ascii {c : Char} (hc : isAscii c = true) :
    lowerChar (lowerChar c) = lowerChar c ∧ lowerChar c ≠ '\u0130' ∧ lowerChar c ≠ '\u03a3' ∧
      (lowerChar c = c ∨ isPunctuation c = false ∧ isPunctuation (lowerChar c) = false) := by
  refine ascii_cases (P := fun c => lowerChar (lowerChar c) = lowerChar c ∧ lowerChar c ≠ '\u0130' ∧
    lowerChar c ≠ '\u03a3' ∧ (lowerChar c = c ∨ isPunctuation c = false ∧
      isPunctuation (lowerChar c) = false)) ?_ hc
  decide +kernel

theorem not_isBlank_beyond {c : Char} (hascii : isAscii c = false)
    (h : ∀ r ∈ blankRanges, c.toNat < r.1 ∨ r.2 < c.toNat) : isBlank c = false := by
  rw [isBlank, if_neg (by simp [hascii]), Bool.eq_false_iff, Ne, inRanges_eq_true_iff]
  rintro ⟨r, hr, hfirst, hlast⟩
  have hout := h r hr
  omega

/-- A row moves characters that are no punctuation to lower ones that are none either. -/
theorem isLower_of_row {c : Char} {row : CaseShift} (hrow : row ∈ lowerShifts)
    (hcovers : row.covers c.toNat = true) (hascii : isAscii c = false)
    (himage : lowerChar c = Char.ofNat ((c.toNat : Int) + row.shift).toNat) :
    IsLower (lowerChar c) ∧ isPunctuation c = false ∧ isPunctuation (lowerChar c) = false := by
  have hlands := List.all_eq_true.mp lowerShifts_land row hrow
  simp only [CaseShift.lands, Bool.and_eq_true, decide_eq_true_eq, List.all_eq_true, Bool.or_eq_true,
    Nat.blt_eq, CaseShift.misses_iff] at hlands
  obtain ⟨⟨⟨⟨⟨⟨hstart, _⟩, hsource⟩, ⟨⟨hpunct, hbrace⟩, hgap⟩, hmax⟩, hdotted, hsigma⟩, hblank⟩,
    hclears⟩ := hlands
  have hrange := (row.covers_iff c.toNat).mp hcovers
  have hmisses := fun other hother => CaseShift.not_covers_image hcovers hstart (hclears other hother)
  generalize hm : ((c.toNat : Int) + row.shift).toNat = m at himage hmisses
  have hlow : row.low ≤ m := by rw [CaseShift.low]; omega
  have hhigh : m ≤ row.high := by rw [CaseShift.high]; omega
  have hcode : (lowerChar c).toNat = m := by
    rw [himage]
    exact toNat_ofNat (by omega)
  have hne : ∀ {d : Char}, row.high < d.toNat ∨ d.toNat < row.low → lowerChar c ≠ d := by
    rintro d hd rfl
    omega
  have hsame : isPunctuation c = false := by
    rw [isPunctuation, hascii, Bool.false_and, Bool.or_false]
    refine not_isBlank_beyond hascii fun r hr => ?_
    have hout := hsource r hr
    omega
  cases hbelow : isAscii (lowerChar c) with
  | true =>
    -- only small letters are left of ASCII
    have hletter : ∀ n < 0x80, 0x60 < n → (n < 0x7b ∨ 0x7f < n) →
        lowerChar (Char.ofNat n) = Char.ofNat n ∧ isPunctuation (Char.ofNat n) = false := by
      decide +kernel
    have hsmall : m < 0x80 := by
      rw [← hcode]
      simpa [isAscii] using hbelow
    obtain ⟨hfixed, hplain⟩ := hletter m hsmall (by omega) (by omega)
    rw [← himage] at hfixed hplain
    exact ⟨⟨hfixed, hne hdotted, hne hsigma⟩, hsame, hplain⟩
  | false =>
    refine ⟨⟨lowerChar_of_clear hbelow (by rwa [hcode]), hne hdotted, hne hsigma⟩, hsame, ?_⟩
    rw [isPunctuation, hbelow, Bool.false_and, Bool.or_false]
    refine not_isBlank_beyond hbelow fun r hr => ?_
    have hout := hblank r hr
    omega

theorem isLower_lowerChar {c : Char} (hdotted : c ≠ '\u0130') (hsigma : c ≠ '\u03a3') :
    IsLower (lowerChar c) ∧ (lowerChar c = c ∨
      isPunctuation c = false ∧ isPunctuation (lowerChar c) = false) := by
  cases hascii : isAscii c with
  | true =>
    obtain ⟨hfixed, hne, hne', hsame⟩ := isLower_ascii hascii
    exact ⟨⟨hfixed, hne, hne'⟩, hsame⟩
  | false =>
    rcases lowerChar_beyond hascii with hstays | ⟨row, hrow, hcovers, himage⟩
    · rw [hstays]
      exact ⟨⟨hstays, hdotted, hsigma⟩, .inl rfl⟩
    · obtain ⟨hlower, hpunctuation⟩ := isLower_of_row hrow hcovers hascii himage
      exact ⟨hlower, .inr hpunctuation⟩

/-! ### Texts -/

inductive LowersTo : Char → Char → Prop
  | simple {c : Char} (hdotted : c ≠ '\u0130') (hsigma : c ≠ '\u03a3') : LowersTo c (lowerChar c)
  | dotted : LowersTo '\u0130' 'i'
  | mark : LowersTo '\u0130' '\u0307'
  | sigma : LowersTo '\u03a3' '\u03c3'
  | final : LowersTo '\u03a3' '\u03c2'

theorem LowersTo.isLower_and {c d : Char} (h : LowersTo c d) :
    IsLower d ∧ (d = c ∨ isPunctuation c = false ∧ isPunctuation d = false) := by
  cases h with
  | simple hdotted hsigma => exact isLower_lowerChar hdotted hsigma
  | dotted => exact ⟨⟨by decide +kernel, by decide, by decide⟩, .inr (by decide +kernel)⟩
  | mark => exact ⟨⟨by decide +kernel, by decide, by decide⟩, .inr (by decide +kernel)⟩
  | sigma => exact ⟨⟨by decide +kernel, by decide, by decide⟩, .inr (by decide +kernel)⟩
  | final => exact ⟨⟨by decide +kernel, by decide, by decide⟩, .inr (by decide +kernel)⟩

theorem LowersTo.isLower {c d : Char} (h : LowersTo c d) : IsLower d := h.isLower_and.1

/-- Lowercasing neither makes nor takes away characters of a class of punctuation. -/
theorem LowersTo.same {c d : Char} (h : LowersTo c d) {k : Char → Bool}
    (hk : ∀ c, k c = true → isPunctuation c = true) : k d = k c := by
  rcases h.isLower_and.2 with rfl | ⟨hc, hd⟩
  · rfl
  · rw [Bool.eq_false_iff.mpr (mt (hk c) (by simp [hc])), Bool.eq_false_iff.mpr (mt (hk d) (by simp [hd]))]

theorem lowerAfter_cons (before : List Char) (c : Char) (cs : List Char) :
    ∃ d here, lowerAfter before (c :: cs) = d :: here ++ lowerAfter (c :: before) cs ∧
      ∀ e ∈ d :: here, LowersTo c e := by
  rw [lowerAfter]
  split
  · rename_i hdotted
    cases beq_iff_eq.mp hdotted
    refine ⟨'i', ['\u0307'], rfl, ?_⟩
    simp [LowersTo.dotted, LowersTo.mark]
  · rename_i hdotted
    split
    · rename_i hsigma
      cases beq_iff_eq.mp hsigma
      split
      · exact ⟨_, [], rfl, by simp [LowersTo.final]⟩
      · exact ⟨_, [], rfl, by simp [LowersTo.sigma]⟩
    · rename_i hsigma
      refine ⟨_, [], rfl, ?_⟩
      simpa using LowersTo.simple (by simpa using hdotted) (by simpa using hsigma)

theorem mem_lowerAfter {before cs : List Char} {d : Char} (h : d ∈ lowerAfter before cs) :
    ∃ c ∈ cs, LowersTo c d := by
  induction cs generalizing before with
  | nil => cases h
  | cons c cs ih =>
    obtain ⟨e, here, heq, hfrom⟩ := lowerAfter_cons before c cs
    rw [heq, List.mem_append] at h
    rcases h with h | h
    · exact ⟨c, List.mem_cons_self, hfrom d h⟩
    · obtain ⟨c', hc', hd⟩ := ih h
      exact ⟨c', List.mem_cons_of_mem c hc', hd⟩

theorem mem_lower {cs : List Char} {d : Char} (h : d ∈ lower cs) : ∃ c ∈ cs, LowersTo c d :=
  mem_lowerAfter h

theorem head?_lower {cs : List Char} {d : Char} (h : (lower cs).head? = some d) :
    ∃ c, cs.head? = some c ∧ LowersTo c d := by
  cases cs with
  | nil => cases h
  | cons c cs =>
    obtain ⟨e, here, heq, hfrom⟩ := lowerAfter_cons [] c cs
    rw [lower, heq] at h
    cases h
    exact ⟨c, rfl, hfrom d List.mem_cons_self⟩

theorem getLast?_lowerAfter {before cs : List Char} {d : Char}
    (h : (lowerAfter before cs).getLast? = some d) : ∃ c, cs.getLast? = some c ∧ LowersTo c d := by
  induction cs generalizing before with
  | nil => cases h
  | cons c cs ih =>
    obtain ⟨e, here, heq, hfrom⟩ := lowerAfter_cons before c cs
    rw [heq] at h
    cases cs with
    | nil =>
      rw [lowerAfter, List.append_nil] at h
      exact ⟨c, rfl, hfrom d (List.mem_of_getLast? h)⟩
    | cons c' cs =>
      obtain ⟨e', here', heq', _⟩ := lowerAfter_cons (c :: before) c' cs
      rw [List.getLast?_append, heq', List.cons_append, List.getLast?_cons, Option.some_or,
        ← List.getLast?_cons, ← List.cons_append, ← heq'] at h
      exact ih h

theorem getLast?_lower {cs : List Char} {d : Char} (h : (lower cs).getLast? = some d) :
    ∃ c, cs.getLast? = some c ∧ LowersTo c d :=
  getLast?_lowerAfter h

theorem lower_eq_self {cs : List Char} (h : ∀ c ∈ cs, IsLower c) : lower cs = cs := by
  have hafter : ∀ before, lowerAfter before cs = cs := by
    induction cs with
    | nil => exact fun _ => rfl
    | cons c cs ih =>
      intro before
      have hc := h c List.mem_cons_self
      rw [lowerAfter, ih (fun d hd => h d (List.mem_cons_of_mem c hd))]
      simp [hc.ne_dotted, hc.ne_sigma, hc.fixed]
  exact hafter []

theorem isLower_of_mem_lower {cs : List Char} {d : Char} (h : d ∈ lower cs) : IsLower d := by
  obtain ⟨c, _, hd⟩ := mem_lower h
  exact hd.isLower

theorem lower_lower (cs : List Char) : lower (lower cs) = lower cs :=
  lower_eq_self fun _ => isLower_of_mem_lower

end SqlAtlas.Text
