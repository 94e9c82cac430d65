import Mathlib.Algebra.Ring.Nat
import SqlAtlas.Proofs.Name
import SqlAtlas.Proofs.Name.NormalForm

/-!
# The letters of a name

The normal form of a name has all letters of its spelling, but for those of a default schema. Blanks,
dots and delimiters around the parts count for nothing, so a name that holds another one and four
letters more is a different name.
-/

namespace SqlAtlas

set_option autoImplicit false

open Text Pattern

namespace Text

/-- What a character adds to the letters of a lowercased text: anything but punctuation counts. -/
def weight (c : Char) : Nat := if isPunctuation c then 0 else if c = '\u0130' then 2 else 1

def letters (cs : List Char) : Nat := (cs.map weight).sum

@[simp] theorem letters_cons (c : Char) (cs : List Char) : letters (c :: cs) = weight c + letters cs := rfl

@[simp] theorem letters_append (as bs : List Char) : letters (as ++ bs) = letters as + letters bs := by
  rw [letters, List.map_append, List.sum_append]
  rfl

theorem letters_eq_zero {cs : List Char} (h : ∀ c ∈ cs, isPunctuation c = true) : letters cs = 0 := by
  induction cs with
  | nil => rfl
  | cons c cs ih =>
    rw [letters_cons, ih fun d hd => h d (List.mem_cons_of_mem c hd), weight,
      if_pos (h c List.mem_cons_self)]

theorem length_le_letters {cs : List Char} (h : ∀ c ∈ cs, isPunctuation c = false) :
    cs.length ≤ letters cs := by
  induction cs with
  | nil => exact Nat.le_refl 0
  | cons c cs ih =>
    have hlater := ih fun d hd => h d (List.mem_cons_of_mem c hd)
    have hfirst : 1 ≤ weight c := by
      rw [weight, if_neg (by simp [h c List.mem_cons_self])]
      split <;> omega
    rw [letters_cons, List.length_cons]
    omega

def lettersOf (cs : List Char) : Nat := cs.countP fun c => !isPunctuation c

theorem lettersOf_lowerAfter (before cs : List Char) : lettersOf (lowerAfter before cs) = letters cs := by
  induction cs generalizing before with
  | nil => rfl
  | cons c cs ih =>
    have hone : ∀ {d : Char}, c ≠ '\u0130' → LowersTo c d → lettersOf [d] = weight c := by
      intro d hdotted hd
      have hsame := hd.same (k := isPunctuation) fun _ => id
      rw [weight, if_neg hdotted, ← hsame]
      cases hpunct : isPunctuation d <;> simp [lettersOf, hpunct]
    have happend : ∀ as bs, lettersOf (as ++ bs) = lettersOf as + lettersOf bs :=
      fun as bs => List.countP_append
    rw [lowerAfter, happend, ih, letters_cons]
    congr 1
    split
    · rename_i hdotted
      rw [beq_iff_eq.mp hdotted]
      decide +kernel
    · rename_i hdotted
      have hne : c ≠ '\u0130' := by simpa using hdotted
      split
      · rename_i hsigma
        cases beq_iff_eq.mp hsigma
        split
        · exact hone hne .final
        · exact hone hne .sigma
      · rename_i hsigma
        exact hone hne (.simple hne (by simpa using hsigma))

theorem lettersOf_lower (cs : List Char) : lettersOf (lower cs) = letters cs := lettersOf_lowerAfter [] cs

theorem letters_trimBy {blank : Char → Bool} (hblank : ∀ c, blank c = true → isPunctuation c = true)
    (cs : List Char) : letters (trimBy blank cs) = letters cs := by
  obtain ⟨lead, tail, hcs, hlead, htail, _⟩ := trimBy_split blank cs
  have hletters := congrArg letters hcs
  rw [letters_append, letters_append, letters_eq_zero fun c hc => hblank c (hlead c hc),
    letters_eq_zero fun c hc => hblank c (htail c hc)] at hletters
  omega

end Text

theorem isPunctuation_of_isNameDelimiter (c : Char) (h : isNameDelimiter c = true) :
    isPunctuation c = true := by
  simp only [isNameDelimiter, Bool.or_eq_true, beq_iff_eq] at h
  rcases h with ((rfl | rfl) | rfl) | rfl <;> decide +kernel

theorem lettersOf_normalPart (part : List Char) : lettersOf (normalPart part) = letters part := by
  rw [normalPart, lettersOf_lower, unwrapIdentifier, trim, trim, letters_trimBy isPunctuation_of_isBlank,
    letters_trimBy isPunctuation_of_isNameDelimiter, letters_trimBy isPunctuation_of_isBlank]

theorem measure_joinWithChar {f : List Char → Nat} (happend : ∀ as bs, f (as ++ bs) = f as + f bs)
    (hdot : f ['.'] = 0) (parts : List (List Char)) :
    f (joinWithChar '.' parts) = (parts.map f).sum := by
  induction parts with
  | nil =>
    have hnil := happend [] []
    rw [List.append_nil] at hnil
    rw [joinWithChar, List.map_nil, List.sum_nil]
    omega
  | cons part parts ih =>
    cases parts with
    | nil => simp [joinWithChar]
    | cons next parts =>
      have hrest : '.' :: joinWithChar '.' (next :: parts) = ['.'] ++ joinWithChar '.' (next :: parts) := rfl
      rw [joinWithChar, happend, hrest, happend, hdot, ih, Nat.zero_add, List.map_cons (a := part),
        List.sum_cons]
      exact nofun

theorem lettersOf_joinWithChar (parts : List (List Char)) :
    lettersOf (joinWithChar '.' parts) = (parts.map lettersOf).sum :=
  measure_joinWithChar (fun _ _ => List.countP_append) (by decide +kernel) parts

theorem letters_eq_sum (raw : List Char) : letters raw = ((normalParts raw).map lettersOf).sum := by
  have hparts : (normalParts raw).map lettersOf = (splitOnChar '.' raw).map letters := by
    rw [normalParts, List.map_map]
    exact List.map_congr_left fun part _ => lettersOf_normalPart part
  rw [hparts, ← measure_joinWithChar letters_append (by decide +kernel), joinWithChar_splitOnChar]

/-- A normal form has no letters that its spelling has not, and misses three of them at most. -/
theorem letters_normalizeName (raw : List Char) : lettersOf (normalizeName raw) ≤ letters raw ∧
    letters raw ≤ lettersOf (normalizeName raw) + 3 := by
  rw [letters_eq_sum]
  rcases normalizeName_cases raw with ⟨hname, hempty⟩ | ⟨object, hparts, hname⟩ | ⟨_, _, hname⟩
  · have hzero : ((normalParts raw).map lettersOf).sum = 0 := by
      rw [List.sum_eq_zero_iff_forall_eq_nat]
      intro n hn
      obtain ⟨part, hpart, rfl⟩ := List.mem_map.mp hn
      rw [hempty part hpart]
      rfl
    rw [hzero, hname]
    exact ⟨Nat.zero_le _, Nat.zero_le _⟩
  · have hschema : lettersOf defaultSchema = 3 := by decide +kernel
    rw [hparts, hname, List.map_cons, List.map_singleton, List.sum_cons, List.sum_singleton, hschema]
    omega
  · rw [hname, lettersOf_joinWithChar]
    exact ⟨Nat.le_refl _, Nat.le_add_right _ 3⟩

/-- Spellings that differ by four letters or more do not stand for one name. -/
theorem normalizeName_ne_of_letters {raw raw' : List Char} (h : letters raw + 4 ≤ letters raw') :
    normalizeName raw ≠ normalizeName raw' := by
  intro heq
  have hle := (letters_normalizeName raw).1
  have hge := (letters_normalizeName raw').2
  rw [← heq] at hge
  omega

end SqlAtlas
