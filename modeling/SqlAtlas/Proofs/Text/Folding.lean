import SqlAtlas.Proofs.Text.Block
import SqlAtlas.Text.Lower
import SqlAtlas.Text.Mask
import SqlAtlas.Text.Word
import SqlAtlas.Text.Digit

/-!
# The case of ASCII letters

A text and the same text with its ASCII letters in lower case have the same offsets, positions,
comments, parentheses and separators, and the same full lowercase form. The classes of characters
that scans look for hold of a letter in both cases or in none.
-/

namespace SqlAtlas.Text

set_option autoImplicit false

variable {α : Type}

/-! ### Characters -/

def Caseless (f : Char → α) : Prop := ∀ c, f c.toLower = f c

theorem toLower_eq_self {c : Char} (h : c.isUpper = false) : c.toLower = c := by
  delta Char.isUpper at h
  delta Char.toLower
  rw [dif_neg]
  simpa using h

theorem exists_ofNat_of_isUpper {c : Char} (h : c.isUpper = true) :
    ∃ n < 26, c = Char.ofNat (65 + n) := by
  have hval : c.val.toNat = c.toNat := rfl
  delta Char.isUpper at h
  simp only [decide_eq_true_eq, ge_iff_le, UInt32.le_iff_toNat_le, hval] at h
  have hlow : 'A'.val.toNat = 65 := rfl
  have hhigh : 'Z'.val.toNat = 90 := rfl
  refine ⟨c.toNat - 65, by omega, ?_⟩
  rw [show 65 + (c.toNat - 65) = c.toNat by omega, Char.ofNat_toNat]

/-- What holds of the two cases of every letter. -/
theorem caseless_of_letters {f : Char → α}
    (h : ∀ n < 26, f (Char.ofNat (65 + n)).toLower = f (Char.ofNat (65 + n))) : Caseless f := by
  intro c
  cases hupper : c.isUpper with
  | false => rw [toLower_eq_self hupper]
  | true =>
    obtain ⟨n, hn, rfl⟩ := exists_ofNat_of_isUpper hupper
    exact h n hn

theorem caseless_toLower : Caseless Char.toLower := caseless_of_letters (by decide)

theorem caseless_toUpper : Caseless Char.toUpper := caseless_of_letters (by decide)

theorem caseless_beq {d : Char} (hd : d.isAlpha = false) : Caseless (· == d) := by
  apply caseless_of_letters
  intro n hn
  have hletters : ∀ n < 26, (Char.ofNat (65 + n)).isAlpha = true ∧
      (Char.ofNat (65 + n)).toLower.isAlpha = true := by decide
  have hne : ∀ {c : Char}, c.isAlpha = true → (c == d) = false := by
    intro c hc
    rw [beq_eq_false_iff_ne]
    rintro rfl
    rw [hd] at hc
    cases hc
  rw [hne (hletters n hn).1, hne (hletters n hn).2]

theorem toLower_beq {d : Char} (hd : d.isAlpha = false) (c : Char) : (c.toLower == d) = (c == d) :=
  caseless_beq hd c

theorem caseless_isBlank : Caseless isBlank := caseless_of_letters (by decide)

theorem caseless_isAsciiBlank : Caseless isAsciiBlank := caseless_of_letters (by decide)

theorem caseless_isDigit : Caseless isDigit := caseless_of_letters (by decide)

theorem caseless_isNumber : Caseless isNumber := caseless_of_letters (by decide)

theorem caseless_isLetter : Caseless isLetter := caseless_of_letters (by decide)

theorem caseless_isWord : Caseless isWord := caseless_of_letters (by decide)

theorem caseless_isNamePart : Caseless isNamePart := caseless_of_letters (by decide)

theorem caseless_isCaseIgnorable : Caseless isCaseIgnorable := caseless_of_letters (by decide)

theorem caseless_isCased : Caseless isCased := caseless_of_letters (by decide)

theorem caseless_lowerChar : Caseless lowerChar := caseless_of_letters (by decide)

theorem caseless_opened? : Caseless Region.opened? := caseless_of_letters (by decide)

theorem map_beq_some {d : Char} (hd : d.isAlpha = false) (c : Option Char) :
    (c.map Char.toLower == some d) = (c == some d) := by
  cases c with
  | none => rfl
  | some c => exact caseless_beq hd c

/-! ### Pieces -/

@[simp] theorem asciiLower_nil : asciiLower [] = [] := rfl

@[simp] theorem asciiLower_cons (c : Char) (cs : List Char) :
    asciiLower (c :: cs) = c.toLower :: asciiLower cs := rfl

theorem asciiLower_append (as bs : List Char) :
    asciiLower (as ++ bs) = asciiLower as ++ asciiLower bs := List.map_append

theorem asciiLower_reverse (cs : List Char) : asciiLower cs.reverse = (asciiLower cs).reverse :=
  List.map_reverse

@[simp] theorem length_asciiLower (cs : List Char) : (asciiLower cs).length = cs.length :=
  List.length_map _

@[simp] theorem isEmpty_asciiLower (cs : List Char) : (asciiLower cs).isEmpty = cs.isEmpty :=
  List.isEmpty_map

@[simp] theorem size_asciiLower (cs : List Char) : size (asciiLower cs) = size cs := by
  induction cs with
  | nil => rfl
  | cons c cs ih => rw [asciiLower_cons, size_cons, size_cons, utf8Size_toLower, ih]

theorem head?_asciiLower (cs : List Char) : (asciiLower cs).head? = cs.head?.map Char.toLower :=
  List.head?_map

theorem getLast?_asciiLower (cs : List Char) :
    (asciiLower cs).getLast? = cs.getLast?.map Char.toLower := List.getLast?_map

theorem drop_asciiLower (n : Nat) (cs : List Char) :
    (asciiLower cs).drop n = asciiLower (cs.drop n) := List.map_drop.symm

theorem take_asciiLower (n : Nat) (cs : List Char) :
    (asciiLower cs).take n = asciiLower (cs.take n) := List.map_take.symm

theorem Caseless.takeWhile {k : Char → Bool} (hk : Caseless k) (cs : List Char) :
    (asciiLower cs).takeWhile k = asciiLower (cs.takeWhile k) := by
  rw [asciiLower, List.takeWhile_map, show k ∘ Char.toLower = k from funext hk]
  rfl

theorem Caseless.dropWhile {k : Char → Bool} (hk : Caseless k) (cs : List Char) :
    (asciiLower cs).dropWhile k = asciiLower (cs.dropWhile k) := by
  rw [asciiLower, List.dropWhile_map, show k ∘ Char.toLower = k from funext hk]
  rfl

theorem Caseless.all {k : Char → Bool} (hk : Caseless k) (cs : List Char) :
    (asciiLower cs).all k = cs.all k := by
  rw [asciiLower, List.all_map, show k ∘ Char.toLower = k from funext hk]

theorem Caseless.any_option {k : Char → Bool} (hk : Caseless k) (c : Option Char) :
    (c.map Char.toLower).any k = c.any k := by
  cases c with
  | none => rfl
  | some c => exact hk c

theorem Caseless.trimBy {k : Char → Bool} (hk : Caseless k) (cs : List Char) :
    trimBy k (asciiLower cs) = asciiLower (trimBy k cs) := by
  rw [Text.trimBy, Text.trimBy, hk.dropWhile, ← asciiLower_reverse, hk.dropWhile,
    ← asciiLower_reverse]

theorem dropBytes_asciiLower (n : Nat) (cs : List Char) :
    dropBytes n (asciiLower cs) = asciiLower (dropBytes n cs) := by
  induction cs generalizing n with
  | nil => cases n <;> rfl
  | cons c cs ih =>
    cases n with
    | zero => rfl
    | succ n => rw [asciiLower_cons, dropBytes, dropBytes, utf8Size_toLower, ih]

theorem takeBytes_asciiLower (n : Nat) (cs : List Char) :
    takeBytes n (asciiLower cs) = asciiLower (takeBytes n cs) := by
  induction cs generalizing n with
  | nil => cases n <;> rfl
  | cons c cs ih =>
    cases n with
    | zero => rfl
    | succ n => rw [asciiLower_cons, takeBytes, takeBytes, utf8Size_toLower, ih, asciiLower_cons]

theorem slice_asciiLower (cs : List Char) (s : Span) :
    slice (asciiLower cs) s = asciiLower (slice cs s) := by
  rw [slice, slice, dropBytes_asciiLower, takeBytes_asciiLower]

theorem charAt?_asciiLower (cs : List Char) (n : Nat) :
    charAt? (asciiLower cs) n = (charAt? cs n).map Char.toLower := by
  rw [charAt?, charAt?, dropBytes_asciiLower, head?_asciiLower]

theorem charBefore?_asciiLower (cs : List Char) (n : Nat) :
    charBefore? (asciiLower cs) n = (charBefore? cs n).map Char.toLower := by
  rw [charBefore?, charBefore?, takeBytes_asciiLower, getLast?_asciiLower]

theorem trimSpan_asciiLower (cs : List Char) (s : Span) :
    trimSpan (asciiLower cs) s = trimSpan cs s := by
  simp only [trimSpan, size_asciiLower, slice_asciiLower, caseless_isAsciiBlank.dropWhile,
    ← asciiLower_reverse, length_asciiLower]

/-! ### Positions and lines -/

theorem Position.after_toLower (p : Position) : Caseless p.after := by
  intro c
  simp (disch := decide) only [after, toLower_beq]

theorem positionFrom_asciiLower (p : Position) (n : Nat) (cs : List Char) :
    positionFrom p n (asciiLower cs) = positionFrom p n cs := by
  induction cs generalizing p n with
  | nil => rfl
  | cons c cs ih =>
    rw [asciiLower_cons, positionFrom, positionFrom, utf8Size_toLower, Position.after_toLower, ih]

theorem extent_asciiLower (cs : List Char) (s : Span) : extent (asciiLower cs) s = extent cs s := by
  simp only [extent, position, positionFrom_asciiLower]

def Line.lower (l : Line) : Line := ⟨l.start, asciiLower l.chars⟩

theorem linesFrom_asciiLower (start : Nat) (cs : List Char) :
    linesFrom start (asciiLower cs) = (linesFrom start cs).map Line.lower := by
  induction cs generalizing start with
  | nil => rfl
  | cons c cs ih =>
    simp only [asciiLower_cons, linesFrom, utf8Size_toLower, ih,
      toLower_beq (d := '\n') (by decide)]
    split
    · rfl
    · cases linesFrom (start + c.utf8Size) cs <;> rfl

/-! ### Roles and masks -/

theorem Region.step_toLower (r : Region) (c : Char) (next : Option Char) :
    r.step c.toLower (next.map Char.toLower) = r.step c next := by
  cases r <;> simp (disch := decide) only [step, stepDelimited, toLower_beq, map_beq_some,
    caseless_opened? c]

theorem rolesFrom_asciiLower (r : Region) (cs : List Char) :
    rolesFrom r (asciiLower cs) = (rolesFrom r cs).map (Prod.map Char.toLower id) := by
  induction cs generalizing r with
  | nil => rfl
  | cons c cs ih =>
    simp only [asciiLower_cons, rolesFrom, head?_asciiLower, Region.step_toLower, ih]
    rfl

theorem blanked_toLower (c : Char) : blanked c.toLower = asciiLower (blanked c) := by
  simp (disch := decide) only [blanked, toLower_beq, utf8Size_toLower]
  split
  · rfl
  · rw [asciiLower, List.map_replicate]
    rfl

theorem mask_asciiLower (hidden : Role → Bool) (cs : List Char) :
    mask hidden (asciiLower cs) = asciiLower (mask hidden cs) := by
  rw [mask, mask, roles, roles, rolesFrom_asciiLower, List.flatMap_map, asciiLower, List.map_flatMap]
  congr 1
  funext p
  rw [Prod.map_fst, Prod.map_snd, id_eq, blanked_toLower]
  split <;> rfl

theorem codeOf_map_toLower (offset : Nat) (ps : List (Char × Role)) :
    codeOf offset (ps.map (Prod.map Char.toLower id)) =
      (codeOf offset ps).map (Prod.map id Char.toLower) := by
  induction ps generalizing offset with
  | nil => rfl
  | cons p ps ih =>
    obtain ⟨c, role⟩ := p
    simp only [List.map_cons, Prod.map_apply, id_eq, codeOf, utf8Size_toLower, ih]
    split <;> rfl

theorem codeIn_asciiLower (cs : List Char) (s : Span) :
    codeIn (asciiLower cs) s = (codeIn cs s).map (Prod.map id Char.toLower) := by
  rw [codeIn, codeIn, dropBytes_asciiLower, roles, rolesFrom_asciiLower, codeOf_map_toLower,
    List.takeWhile_map]
  rfl

/-! ### Parentheses, separators and words -/

theorem depthAfter_toLower (depth : Nat) : Caseless (depthAfter depth) := by
  intro c
  simp (disch := decide) only [depthAfter, toLower_beq]

theorem closingIn_map_toLower (depth : Nat) (ps : List (Nat × Char)) :
    closingIn depth (ps.map (Prod.map id Char.toLower)) = closingIn depth ps := by
  induction ps generalizing depth with
  | nil => rfl
  | cons p ps ih =>
    obtain ⟨i, c⟩ := p
    simp only [List.map_cons, Prod.map_apply, id_eq, closingIn, toLower_beq (d := ')') (by decide),
      depthAfter_toLower depth c, ih]

theorem matchingParen?_asciiLower (cs : List Char) (start : Nat) :
    matchingParen? (asciiLower cs) start = matchingParen? cs start := by
  rw [matchingParen?, matchingParen?, charAt?_asciiLower, map_beq_some (by decide), size_asciiLower,
    codeIn_asciiLower, closingIn_map_toLower]

theorem commasIn_map_toLower (depth : Nat) (ps : List (Nat × Char)) :
    commasIn depth (ps.map (Prod.map id Char.toLower)) = commasIn depth ps := by
  induction ps generalizing depth with
  | nil => rfl
  | cons p ps ih =>
    obtain ⟨i, c⟩ := p
    simp only [List.map_cons, Prod.map_apply, id_eq, commasIn, toLower_beq (d := ',') (by decide),
      depthAfter_toLower depth c, ih]

theorem splitTopLevel_asciiLower (cs : List Char) (s : Span) :
    splitTopLevel (asciiLower cs) s = splitTopLevel cs s := by
  rw [splitTopLevel, splitTopLevel, trimmedPieces, trimmedPieces, size_asciiLower, codeIn_asciiLower,
    commasIn_map_toLower, funext (trimSpan_asciiLower cs)]

theorem startsWithFold_asciiLower (word cs : List Char) :
    startsWithFold word (asciiLower cs) = startsWithFold word cs := by
  induction word generalizing cs with
  | nil => rfl
  | cons w word ih =>
    cases cs with
    | nil => rfl
    | cons c cs => rw [asciiLower_cons, startsWithFold, startsWithFold, caseless_toLower c, ih]

theorem wordAt_asciiLower (cs : List Char) (stop : Nat) (word : List Char) (i : Nat) :
    wordAt (asciiLower cs) stop word i = wordAt cs stop word i := by
  simp only [wordAt, dropBytes_asciiLower, startsWithFold_asciiLower, charBefore?_asciiLower,
    charAt?_asciiLower, caseless_isNamePart.any_option]

theorem wordIn_asciiLower (cs : List Char) (stop : Nat) (word : List Char) (depth : Nat)
    (ps : List (Nat × Char)) : wordIn (asciiLower cs) stop word depth
      (ps.map (Prod.map id Char.toLower)) = wordIn cs stop word depth ps := by
  induction ps generalizing depth with
  | nil => rfl
  | cons p ps ih =>
    obtain ⟨i, c⟩ := p
    simp only [List.map_cons, Prod.map_apply, id_eq, wordIn, wordAt_asciiLower,
      depthAfter_toLower depth c, ih]

theorem findTopLevelWord?_asciiLower (cs : List Char) (s : Span) (word : List Char) :
    findTopLevelWord? (asciiLower cs) s word = findTopLevelWord? cs s word := by
  rw [findTopLevelWord?, findTopLevelWord?, codeIn_asciiLower, wordIn_asciiLower]

/-! ### Full lowercase forms -/

theorem casedNext_asciiLower (cs : List Char) : casedNext (asciiLower cs) = casedNext cs := by
  rw [casedNext, casedNext, caseless_isCaseIgnorable.dropWhile]
  cases cs.dropWhile isCaseIgnorable with
  | nil => rfl
  | cons c rest => exact caseless_isCased c

theorem lowerAfter_asciiLower (before cs : List Char) :
    lowerAfter (asciiLower before) (asciiLower cs) = lowerAfter before cs := by
  induction cs generalizing before with
  | nil => rfl
  | cons c cs ih =>
    have hrest := ih (c :: before)
    rw [asciiLower_cons] at hrest
    simp (disch := decide) only [asciiLower_cons, lowerAfter, hrest, casedNext_asciiLower,
      caseless_lowerChar c, toLower_beq]

theorem lower_asciiLower (cs : List Char) : lower (asciiLower cs) = lower cs :=
  lowerAfter_asciiLower [] cs

theorem asciiUpper_asciiLower (cs : List Char) : asciiUpper (asciiLower cs) = asciiUpper cs := by
  rw [asciiUpper, asciiLower, List.map_map]
  exact List.map_congr_left fun c _ => caseless_toUpper c

end SqlAtlas.Text
