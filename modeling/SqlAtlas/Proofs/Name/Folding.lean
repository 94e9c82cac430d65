import SqlAtlas.Keyword
import SqlAtlas.Name
import SqlAtlas.Proofs.Text.Folding

/-!
# Names in any case

Two spellings that differ in the case of ASCII letters have the same normal form, the same parts and
the same delimiters.
-/

namespace SqlAtlas

set_option autoImplicit false

open Text

theorem caseless_isNameDelimiter : Caseless isNameDelimiter := caseless_of_letters (by decide)

theorem unwrapIdentifier_asciiLower (raw : List Char) :
    unwrapIdentifier (asciiLower raw) = asciiLower (unwrapIdentifier raw) := by
  simp only [unwrapIdentifier, trim, caseless_isBlank.trimBy, caseless_isNameDelimiter.trimBy]

theorem splitOnChar_asciiLower {sep : Char} (hsep : sep.isAlpha = false) (cs : List Char) :
    splitOnChar sep (asciiLower cs) = (splitOnChar sep cs).map asciiLower := by
  induction cs with
  | nil => rfl
  | cons c cs ih =>
    simp only [asciiLower_cons, splitOnChar, toLower_beq hsep, ih]
    split
    · rfl
    · cases splitOnChar sep cs <;> rfl

theorem normalizeName_asciiLower (raw : List Char) :
    normalizeName (asciiLower raw) = normalizeName raw := by
  have hparts : (splitOnChar '.' (asciiLower raw)).map (fun part => lower (unwrapIdentifier part)) =
      (splitOnChar '.' raw).map fun part => lower (unwrapIdentifier part) := by
    rw [splitOnChar_asciiLower (by decide), List.map_map]
    refine List.map_congr_left fun part _ => ?_
    rw [Function.comp_apply, unwrapIdentifier_asciiLower, lower_asciiLower]
  rw [normalizeName, hparts, normalizeName]

theorem Name.ofChars_asciiLower (raw : List Char) : Name.ofChars (asciiLower raw) = Name.ofChars raw :=
  congrArg Name.mk (normalizeName_asciiLower raw)

theorem partSpansFrom_asciiLower {close : Option Char}
    (hclose : close.all fun q => !q.isAlpha) (start offset : Nat) (cs : List Char) :
    partSpansFrom close start offset (asciiLower cs) = partSpansFrom close start offset cs := by
  induction cs generalizing close start offset with
  | nil => rfl
  | cons c cs ih =>
    cases close with
    | some q =>
      have hq : q.isAlpha = false := by simpa using hclose
      simp only [asciiLower_cons, partSpansFrom, toLower_beq hq, utf8Size_toLower]
      split
      · exact ih rfl _ _
      · exact ih hclose _ _
    | none =>
      simp (disch := decide) only [asciiLower_cons, partSpansFrom, toLower_beq, utf8Size_toLower, ih]

theorem innerSpan_asciiLower (raw : List Char) (part : Span) :
    innerSpan (asciiLower raw) part = innerSpan raw part := by
  simp (disch := decide) only [innerSpan, trimSpan_asciiLower, slice_asciiLower, head?_asciiLower,
    getLast?_asciiLower, map_beq_some]

theorem partSpans_asciiLower (raw : List Char) : partSpans (asciiLower raw) = partSpans raw := by
  rw [partSpans, partSpans, partSpansFrom_asciiLower rfl, funext (innerSpan_asciiLower raw)]

theorem displayName_asciiLower (raw : List Char) :
    displayName (asciiLower raw) = asciiLower (displayName raw) := by
  have hjoin : ∀ parts : List (List Char),
      joinWithChar '.' (parts.map asciiLower) = asciiLower (joinWithChar '.' parts) := by
    intro parts
    fun_induction joinWithChar '.' parts with
    | case1 => rfl
    | case2 part => rfl
    | case3 part parts hne ih =>
      cases parts with
      | nil => exact absurd rfl hne
      | cons next parts =>
        rw [asciiLower_append, asciiLower_cons, ← ih]
        rfl
  rw [displayName, displayName, partSpans_asciiLower, ← hjoin, List.map_map]
  exact congrArg (joinWithChar '.') (List.map_congr_left fun s _ => slice_asciiLower raw s)

theorem isDelimited_asciiLower (raw : List Char) : isDelimited (asciiLower raw) = isDelimited raw := by
  simp (disch := decide) only [isDelimited, isBracketed, isDoubleQuoted, trim,
    caseless_isBlank.trimBy, head?_asciiLower, getLast?_asciiLower, map_beq_some, size_asciiLower]
  rfl

theorem Keyword.oneOf_asciiLower (words : List String) (word : List Char) :
    Keyword.oneOf words (asciiLower word) = Keyword.oneOf words word := by
  rw [oneOf, oneOf, asciiUpper_asciiLower]

theorem Keyword.isReserved_asciiLower (word : List Char) :
    Keyword.isReserved (asciiLower word) = Keyword.isReserved word :=
  oneOf_asciiLower reservedWords word

theorem Keyword.isConstraintWord_asciiLower (word : List Char) :
    Keyword.isConstraintWord (asciiLower word) = Keyword.isConstraintWord word :=
  oneOf_asciiLower constraintWords word

theorem Keyword.isWord_asciiLower (keyword : String) (word : List Char) :
    Keyword.isWord keyword (asciiLower word) = Keyword.isWord keyword word := by
  rw [isWord, isWord, asciiUpper_asciiLower]

end SqlAtlas
