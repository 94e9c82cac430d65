import SqlAtlas.Pattern
import SqlAtlas.Proofs.Text.Folding

/-!
# Patterns in any case

What a pattern takes of a text does not depend on the case of ASCII letters. A search finds the same
in every case at the same offsets.
-/

namespace SqlAtlas.Pattern

set_option autoImplicit false

open Text

variable {α : Type}

def CaselessText (f : List Char → α) : Prop := ∀ cs, f (asciiLower cs) = f cs

theorem caseless_isCaseOf (u : Char) : Caseless (isCaseOf u) := by
  intro c
  simp (disch := decide) only [isCaseOf, caseless_toUpper c, toLower_beq]

theorem word?_asciiLower (word : List Char) : CaselessText (word? word) := by
  intro cs
  induction word generalizing cs with
  | nil => rfl
  | cons u us ih =>
    cases cs with
    | nil => rfl
    | cons c cs => rw [asciiLower_cons, word?, word?, caseless_isCaseOf u c, ih]

theorem keyword?_asciiLower (word : String) : CaselessText (keyword? word) :=
  word?_asciiLower word.toList

theorem isWordAt_map_toLower (c : Option Char) : isWordAt (c.map Char.toLower) = isWordAt c := by
  cases c with
  | none => rfl
  | some c => exact caseless_isWord c

theorem wholeKeyword?_asciiLower (word : String) : CaselessText (wholeKeyword? word) := by
  intro cs
  simp only [wholeKeyword?, keyword?_asciiLower word cs, drop_asciiLower, head?_asciiLower,
    isWordAt_map_toLower]

theorem blanks_asciiLower : CaselessText blanks := by
  intro cs
  rw [blanks, blanks, caseless_isBlank.takeWhile, length_asciiLower]

theorem blanks?_asciiLower : CaselessText blanks? := fun cs => congrArg some (blanks_asciiLower cs)

theorem someBlanks?_asciiLower : CaselessText someBlanks? := by
  intro cs
  rw [someBlanks?, blanks_asciiLower, someBlanks?]

theorem chain?_asciiLower {steps : List (List Char → Option Nat)}
    (hsteps : ∀ f ∈ steps, CaselessText f) : CaselessText (chain? steps) := by
  intro cs
  induction steps generalizing cs with
  | nil => rfl
  | cons f fs ih =>
    obtain ⟨hf, hfs⟩ := List.forall_mem_cons.mp hsteps
    simp only [chain?, hf cs, drop_asciiLower, ih hfs]

theorem optionally_asciiLower {f : List Char → Option Nat} (hf : CaselessText f) :
    CaselessText (optionally f) := fun cs => congrArg (Option.getD · 0) (hf cs)

theorem optional?_asciiLower {f : List Char → Option Nat} (hf : CaselessText f) :
    CaselessText (optional? f) := fun cs => congrArg some (optionally_asciiLower hf cs)

theorem char?_asciiLower {c : Char} (hc : c.isAlpha = false) : CaselessText (char? c) := by
  intro cs
  rw [char?, head?_asciiLower, map_beq_some hc, char?]

/-! ### Identifiers and dotted names -/

theorem caseless_startsIdentifier (folded : Bool) : Caseless (startsIdentifier folded) := by
  intro c
  simp (disch := decide) only [startsIdentifier, isIdentifierMark, caseless_isLetter c, toLower_beq]

theorem caseless_continuesIdentifier (folded : Bool) : Caseless (continuesIdentifier folded) := by
  intro c
  rw [continuesIdentifier, caseless_startsIdentifier folded c, caseless_isNumber c,
    continuesIdentifier]

theorem delimitedRest?_asciiLower {close : Char} (hclose : close.isAlpha = false) :
    CaselessText (delimitedRest? close) := by
  intro cs
  have hinside : Caseless fun c => c != close && c != '\n' := by
    intro c
    simp (disch := first | exact hclose | decide) only [bne, toLower_beq]
  simp only [delimitedRest?, hinside.takeWhile, length_asciiLower, drop_asciiLower,
    head?_asciiLower, map_beq_some hclose]

theorem identifier?_asciiLower (folded : Bool) : CaselessText (identifier? folded) := by
  intro cs
  cases cs with
  | nil => rfl
  | cons c rest =>
    simp (disch := decide) only [asciiLower_cons, identifier?, toLower_beq,
      delimitedRest?_asciiLower _ rest, caseless_startsIdentifier folded c,
      (caseless_continuesIdentifier folded).takeWhile, length_asciiLower]

theorem dotPart?_asciiLower (folded : Bool) : CaselessText (dotPart? folded) := by
  apply chain?_asciiLower
  simp only [List.forall_mem_cons]
  exact ⟨blanks?_asciiLower, char?_asciiLower (by decide), blanks?_asciiLower,
    identifier?_asciiLower folded, nofun⟩

theorem dotParts_asciiLower (folded : Bool) (limit : Nat) : CaselessText (dotParts folded limit) := by
  intro cs
  induction limit generalizing cs with
  | zero => rfl
  | succ limit ih =>
    simp only [dotParts, dotPart?_asciiLower folded cs, drop_asciiLower, ih]

theorem dottedName?_asciiLower (folded : Bool) (limit : Nat) :
    CaselessText (dottedName? folded limit) := by
  intro cs
  simp only [dottedName?, identifier?_asciiLower folded cs, drop_asciiLower,
    dotParts_asciiLower folded limit _]

/-! ### Finds -/

theorem spanAfter_asciiLower (offset : Nat) (cs : List Char) (skip count : Nat) :
    spanAfter offset (asciiLower cs) skip count = spanAfter offset cs skip count := by
  simp only [spanAfter, take_asciiLower, drop_asciiLower, size_asciiLower]

def Found.map {β : Type} (f : α → β) (found : Found α) : Found β := ⟨found.offset, f found.value⟩

theorem findAllFrom_asciiLower {recognise : Option Char → List Char → Option (α × Nat)} {change : α → α}
    (hrecognise : ∀ prev cs, recognise (prev.map Char.toLower) (asciiLower cs) =
      (recognise prev cs).map (Prod.map change id)) (prev : Option Char) (offset : Nat) (cs : List Char) :
    findAllFrom recognise (prev.map Char.toLower) offset (asciiLower cs) =
      (findAllFrom recognise prev offset cs).map (Found.map change) := by
  fun_induction findAllFrom recognise prev offset cs with
  | case1 => rw [asciiLower_nil, findAllFrom, List.map_nil]
  | case2 prev offset c cs a more hfound taken ih =>
    have hlower := hrecognise prev (c :: cs)
    rw [hfound, asciiLower_cons] at hlower
    -- both searches go on behind the same number of characters
    have htaken : c.toLower :: (asciiLower cs).take more = asciiLower taken := by
      rw [take_asciiLower, ← asciiLower_cons]
    rw [asciiLower_cons, findAllFrom, hlower]
    simp only [Option.map_some, Prod.map_apply, id_eq]
    rw [htaken, getLast?_asciiLower, size_asciiLower, drop_asciiLower, ih, List.map_cons]
    rfl
  | case3 prev offset c cs hnone ih =>
    have hlower := hrecognise prev (c :: cs)
    rw [hnone, asciiLower_cons] at hlower
    rw [asciiLower_cons, findAllFrom, hlower]
    simp only [Option.map_none, utf8Size_toLower]
    exact ih

end SqlAtlas.Pattern
