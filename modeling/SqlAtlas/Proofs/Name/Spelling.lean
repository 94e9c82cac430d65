import SqlAtlas.Proofs.Name.NormalForm
import SqlAtlas.Token

/-!
# Spellings and values of names

A name is written as bare words and words in delimiters with dots between them. The tokens of a name
hold the words without their delimiters and without the blanks around the dots. Both stand for the
same name if no word has a delimiter inside.
-/

namespace SqlAtlas

set_option autoImplicit false

open Text

/-! ### Delimiters at the ends of a part -/

theorem trimBy_append {blank : Char → Bool} {lead tail : List Char}
    (hlead : ∀ c ∈ lead, blank c = true) (htail : ∀ c ∈ tail, blank c = true) (cs : List Char) :
    trimBy blank (lead ++ (cs ++ tail)) = trimBy blank cs := by
  have htail' : tail.dropWhile blank = [] := List.dropWhile_eq_nil_iff.mpr htail
  rw [trimBy, List.dropWhile_append_of_pos hlead, List.dropWhile_append]
  split
  · rename_i hnone
    rw [htail', trimBy, List.isEmpty_iff.mp hnone]
  · rw [List.reverse_append,
      List.dropWhile_append_of_pos fun c hc => htail c (List.mem_reverse.mp hc), trimBy]

theorem forall_mem_nil {k : Char → Bool} : ∀ c ∈ ([] : List Char), k c = true := nofun

theorem unwrapIdentifier_append {lead tail : List Char} (hlead : ∀ c ∈ lead, isBlank c = true)
    (htail : ∀ c ∈ tail, isBlank c = true) (cs : List Char) :
    unwrapIdentifier (lead ++ (cs ++ tail)) = unwrapIdentifier cs := by
  have htrim : trim (lead ++ (cs ++ tail)) = trim cs := trimBy_append hlead htail cs
  rw [unwrapIdentifier, htrim, unwrapIdentifier]

theorem isBlank_of_isNameDelimiter {c : Char} (h : isNameDelimiter c = true) : isBlank c = false := by
  simp only [isNameDelimiter, Bool.or_eq_true, beq_iff_eq] at h
  rcases h with ((rfl | rfl) | rfl) | rfl <;> decide

theorem tight_of_forall {blank : Char → Bool} {cs : List Char} (h : ∀ c ∈ cs, blank c = false) :
    Tight blank cs :=
  ⟨fun c hc => h c (List.mem_of_mem_head? hc), fun c hc => h c (List.mem_of_getLast? hc)⟩

theorem exists_trimmed_right (blank : Char → Bool) (cs : List Char) : ∃ kept tail,
    cs = kept ++ tail ∧ (∀ c ∈ tail, blank c = true) ∧
      ∀ c, kept.getLast? = some c → blank c = false := by
  refine ⟨(cs.reverse.dropWhile blank).reverse, (cs.reverse.takeWhile blank).reverse, ?_, ?_, ?_⟩
  · rw [← List.reverse_append, List.takeWhile_append_dropWhile, List.reverse_reverse]
  · exact fun c hc => List.mem_takeWhile_imp (List.mem_reverse.mp hc)
  · intro c hc
    have hstop := List.head?_dropWhile_not blank cs.reverse
    rw [List.getLast?_reverse] at hc
    rwa [hc] at hstop

section

variable {cs : List Char} (hcs : ∀ c ∈ cs, isNameDelimiter c = false)

include hcs

theorem unwrapIdentifier_plain : unwrapIdentifier cs = trim cs := by
  have htight : Tight isNameDelimiter (trim cs) :=
    tight_of_forall fun c hc => hcs c ((trimBy_sublist _ _).subset hc)
  rw [unwrapIdentifier, trimBy_eq_self htight]
  exact trimBy_eq_self (tight_trimBy isBlank cs)

theorem unwrapIdentifier_of_trim {x : List Char} (opened kept closed : List Char)
    (hopened : ∀ c ∈ opened, isNameDelimiter c = true)
    (hclosed : ∀ c ∈ closed, isNameDelimiter c = true) (hkept : kept ⊆ cs)
    (htrim : trim kept = trim cs) (hx : trim x = opened ++ (kept ++ closed)) :
    unwrapIdentifier x = trim cs := by
  rw [unwrapIdentifier, hx, trimBy_append hopened hclosed,
    trimBy_eq_self (tight_of_forall fun c hc => hcs c (hkept hc)), htrim]

theorem unwrapIdentifier_delimited {mark close : Char} (hmark : isNameDelimiter mark = true)
    (hclose : isNameDelimiter close = true) :
    unwrapIdentifier (mark :: (cs ++ [close])) = trim cs := by
  refine unwrapIdentifier_of_trim hcs [mark] cs [close] (by simpa) (by simpa) (List.Subset.refl cs)
    rfl (trimBy_eq_self ⟨?_, ?_⟩)
  · rintro c ⟨⟩
    exact isBlank_of_isNameDelimiter hmark
  · intro c hc
    rw [← List.cons_append, List.getLast?_concat] at hc
    cases hc
    exact isBlank_of_isNameDelimiter hclose

theorem unwrapIdentifier_opened {mark : Char} (hmark : isNameDelimiter mark = true) :
    unwrapIdentifier (mark :: cs) = trim cs := by
  obtain ⟨kept, tail, rfl, htail, hlast⟩ := exists_trimmed_right isBlank cs
  have htight : Tight isBlank (mark :: kept) := by
    refine ⟨?_, ?_⟩
    · rintro c ⟨⟩
      exact isBlank_of_isNameDelimiter hmark
    · intro c hc
      rw [List.getLast?_cons] at hc
      cases hkept : kept.getLast? with
      | none =>
        rw [hkept] at hc
        cases hc
        exact isBlank_of_isNameDelimiter hmark
      | some d =>
        rw [hkept] at hc
        cases hc
        exact hlast _ hkept
  refine unwrapIdentifier_of_trim hcs [mark] kept [] (by simpa) (by simp) (List.subset_append_left _ _)
    ?_ ?_
  · exact (trimBy_append forall_mem_nil htail kept).symm
  · exact (trimBy_append forall_mem_nil htail (mark :: kept)).trans ((trimBy_eq_self htight).trans (by simp))

theorem unwrapIdentifier_closed {close : Char} (hclose : isNameDelimiter close = true) :
    unwrapIdentifier (cs ++ [close]) = trim cs := by
  have hlead : ∀ c ∈ cs.takeWhile isBlank, isBlank c = true := fun c => List.mem_takeWhile_imp
  have hsplit : cs.takeWhile isBlank ++ cs.dropWhile isBlank = cs := List.takeWhile_append_dropWhile
  have htight : Tight isBlank (cs.dropWhile isBlank ++ [close]) := by
    refine ⟨?_, ?_⟩
    · intro c hc
      cases hkept : (cs.dropWhile isBlank).head? with
      | none =>
        rw [List.head?_append, hkept] at hc
        cases hc
        exact isBlank_of_isNameDelimiter hclose
      | some d =>
        have hstop := List.head?_dropWhile_not isBlank cs
        rw [List.head?_append, hkept] at hc
        cases hc
        rwa [hkept] at hstop
    · intro c hc
      rw [List.getLast?_concat] at hc
      cases hc
      exact isBlank_of_isNameDelimiter hclose
  refine unwrapIdentifier_of_trim hcs [] (cs.dropWhile isBlank) [close] (by simp) (by simpa)
    (List.dropWhile_sublist _).subset ?_ ?_
  · have htrim := trimBy_append hlead forall_mem_nil (cs.dropWhile isBlank)
    rw [List.append_nil, hsplit] at htrim
    exact htrim.symm
  · have htrim := trimBy_append hlead forall_mem_nil (cs.dropWhile isBlank ++ [close])
    rw [List.append_nil, ← List.append_assoc, hsplit, trimBy_eq_self htight] at htrim
    exact htrim

end

/-! ### Words -/

/-- A word of a name: bare, or in delimiters that the first one opens. -/
inductive NameWord where
  | bare (first : Char) (more : List Char)
  | delimited (mark : Char) (inside : List Char)
deriving DecidableEq, Repr

namespace NameWord

def spelled : NameWord → List Char
  | bare first more => first :: more
  | delimited mark inside => mark :: (inside ++ [Scan.closing mark])

def value : NameWord → List Char
  | bare first more => first :: more
  | delimited _ inside => inside

def token : NameWord → Token
  | bare first more => .word (first :: more) none
  | delimited mark inside => .word inside (some mark)

/-- A bare word of identifier characters that starts with no sign, or a word in delimiters without a
delimiter inside. -/
def Plain : NameWord → Prop
  | bare first more =>
    (Dialect.isIdentifierStart .tsql first = true ∧ first ≠ '#' ∧ first ≠ '@') ∧
      ∀ c ∈ more, Dialect.isIdentifierPart .tsql c = true
  | delimited mark inside =>
    (mark = '[' ∨ mark = '"') ∧ ∀ c ∈ inside, isNameDelimiter c = false

-- the characters of the word are gone through, not all characters
instance (w : NameWord) : Decidable w.Plain :=
  match w with
  | bare _ more => @instDecidableAnd _ _ inferInstance (List.decidableBAll _ more)
  | delimited _ inside => @instDecidableAnd _ _ inferInstance (List.decidableBAll _ inside)

end NameWord

structure DottedWord where
  before : List Char := []
  after : List Char := []
  word : NameWord
deriving DecidableEq, Repr

namespace DottedWord

def spelled (p : DottedWord) : List Char := p.before ++ '.' :: (p.after ++ p.word.spelled)

def value (p : DottedWord) : List Char := '.' :: p.word.value

structure Plain (p : DottedWord) : Prop where
  before : ∀ c ∈ p.before, isBlank c = true
  after : ∀ c ∈ p.after, isBlank c = true
  word : p.word.Plain

instance (p : DottedWord) : Decidable p.Plain :=
  decidable_of_iff (p.before.all isBlank = true ∧ p.after.all isBlank = true ∧ p.word.Plain)
    ⟨fun h => ⟨List.all_eq_true.mp h.1, List.all_eq_true.mp h.2.1, h.2.2⟩,
      fun h => ⟨List.all_eq_true.mpr h.before, List.all_eq_true.mpr h.after, h.word⟩⟩

end DottedWord

structure DottedName where
  first : NameWord
  more : List DottedWord := []
deriving DecidableEq, Repr

namespace DottedName

def spelled (n : DottedName) : List Char := n.first.spelled ++ n.more.flatMap (·.spelled)

def value (n : DottedName) : List Char := n.first.value ++ n.more.flatMap (·.value)

structure Plain (n : DottedName) : Prop where
  first : n.first.Plain
  more : ∀ p ∈ n.more, p.Plain

instance (n : DottedName) : Decidable n.Plain :=
  decidable_of_iff (n.first.Plain ∧ ∀ p ∈ n.more, p.Plain)
    ⟨fun h => ⟨h.1, h.2⟩, fun h => ⟨h.first, h.more⟩⟩

end DottedName

/-! ### Normal forms -/

theorem dot_ne_of_isBlank {c : Char} (h : isBlank c = true) : c ≠ '.' := by
  rintro rfl
  revert h
  decide

theorem dot_notMem_of_blank {cs : List Char} (h : ∀ c ∈ cs, isBlank c = true) : '.' ∉ cs :=
  fun hdot => dot_ne_of_isBlank (h _ hdot) rfl

theorem normalParts_append (as bs : List Char) :
    normalParts (as ++ '.' :: bs) = normalParts as ++ normalParts bs := by
  rw [normalParts, splitOnChar_append, List.map_append]
  rfl

theorem normalParts_of_notMem {cs : List Char} (h : '.' ∉ cs) : normalParts cs = [normalPart cs] := by
  rw [normalParts, splitOnChar_of_notMem h]
  rfl

theorem normalParts_closed {parts : List (List Char)} (hne : parts ≠ [])
    (hdots : ∀ part ∈ parts, '.' ∉ part) (hplain : ∀ part ∈ parts, ∀ c ∈ part, isNameDelimiter c = false)
    {close : Char} (hclose : isNameDelimiter close = true) (hdot : close ≠ '.') {tail : List Char}
    (htail : ∀ c ∈ tail, isBlank c = true) :
    normalParts (joinWithChar '.' parts ++ close :: tail) = parts.map normalPart := by
  induction parts with
  | nil => exact absurd rfl hne
  | cons part parts ih =>
    cases parts with
    | nil =>
      have hpart := hplain part List.mem_cons_self
      have hsame := unwrapIdentifier_append forall_mem_nil htail (part ++ [close])
      rw [List.nil_append, List.append_assoc, List.singleton_append,
        unwrapIdentifier_closed hpart hclose, ← unwrapIdentifier_plain hpart] at hsame
      rw [joinWithChar, normalParts_of_notMem, normalPart, hsame]
      · rfl
      · simp [hdots part List.mem_cons_self, hdot.symm, dot_notMem_of_blank htail]
    | cons next parts =>
      have hrest := ih (List.cons_ne_nil next parts) (fun p hp => hdots p (List.mem_cons_of_mem part hp))
        (fun p hp => hplain p (List.mem_cons_of_mem part hp))
      change normalParts (part ++ '.' :: joinWithChar '.' (next :: parts) ++ close :: tail) = _
      rw [List.append_assoc, List.cons_append, normalParts_append, hrest,
        normalParts_of_notMem (hdots part List.mem_cons_self)]
      rfl

theorem normalParts_delimited {inside : List Char} (hplain : ∀ c ∈ inside, isNameDelimiter c = false)
    {mark close : Char} (hmark : isNameDelimiter mark = true) (hclose : isNameDelimiter close = true)
    (hdots : mark ≠ '.' ∧ close ≠ '.') {lead tail : List Char} (hlead : ∀ c ∈ lead, isBlank c = true)
    (htail : ∀ c ∈ tail, isBlank c = true) :
    normalParts (lead ++ mark :: (inside ++ close :: tail)) = normalParts inside := by
  have hpart : ∀ part ∈ splitOnChar '.' inside, ∀ c ∈ part, isNameDelimiter c = false :=
    fun part hpart c hc => hplain c (mem_of_mem_splitOnChar hpart hc)
  have hdot : ∀ part ∈ splitOnChar '.' inside, '.' ∉ part := fun _ => notMem_of_mem_splitOnChar
  have hjoin := joinWithChar_splitOnChar '.' inside
  obtain ⟨part, parts, hsplit⟩ := List.exists_cons_of_ne_nil (splitOnChar_ne_nil '.' inside)
  have hvalue : normalParts inside = (part :: parts).map normalPart := by
    rw [normalParts, hsplit]
  rw [hsplit] at hpart hdot hjoin
  have hfirst := hpart part List.mem_cons_self
  have hblank := dot_notMem_of_blank hlead
  rw [hvalue, ← hjoin]
  cases parts with
  | nil =>
    have hsame := unwrapIdentifier_append hlead htail (mark :: (part ++ [close]))
    rw [unwrapIdentifier_delimited hfirst hmark hclose, ← unwrapIdentifier_plain hfirst] at hsame
    have hshape : lead ++ mark :: (part ++ close :: tail) = lead ++ (mark :: (part ++ [close]) ++ tail) := by
      simp
    rw [joinWithChar, hshape, normalParts_of_notMem, normalPart, hsame]
    · rfl
    · simp [hdot part List.mem_cons_self, hdots.1.symm, hdots.2.symm, hblank, dot_notMem_of_blank htail]
  | cons next parts =>
    have hsame := unwrapIdentifier_append hlead forall_mem_nil (mark :: part)
    rw [List.append_nil, unwrapIdentifier_opened hfirst hmark, ← unwrapIdentifier_plain hfirst] at hsame
    have hrest := normalParts_closed (List.cons_ne_nil next parts)
      (fun p hp => hdot p (List.mem_cons_of_mem part hp))
      (fun p hp => hpart p (List.mem_cons_of_mem part hp)) hclose hdots.2 htail
    have hshape : lead ++ mark :: (joinWithChar '.' (part :: next :: parts) ++ close :: tail) =
        (lead ++ mark :: part) ++ '.' :: (joinWithChar '.' (next :: parts) ++ close :: tail) := by
      rw [joinWithChar]
      · simp
      · exact List.cons_ne_nil next parts
    rw [hshape, normalParts_append, hrest, normalParts_of_notMem, normalPart, hsame]
    · rfl
    · simp [hdot part List.mem_cons_self, hdots.1.symm, hblank]

theorem normalParts_blanks {cs : List Char} (h : '.' ∉ cs) {lead tail : List Char}
    (hlead : ∀ c ∈ lead, isBlank c = true) (htail : ∀ c ∈ tail, isBlank c = true) :
    normalParts (lead ++ (cs ++ tail)) = normalParts cs := by
  rw [normalParts_of_notMem h, normalParts_of_notMem, normalPart, normalPart,
    unwrapIdentifier_append hlead htail]
  simp [h, dot_notMem_of_blank hlead, dot_notMem_of_blank htail]

theorem ne_dot_of_isIdentifierPart {c : Char} (h : Dialect.isIdentifierPart .tsql c = true) : c ≠ '.' := by
  rintro rfl
  revert h
  decide

theorem ne_dot_of_isIdentifierStart {c : Char} (h : Dialect.isIdentifierStart .tsql c = true) :
    c ≠ '.' := by
  rintro rfl
  revert h
  decide

/-- A plain word stands for what its token holds, whatever blanks are around it. -/
theorem NameWord.normalParts_spelled {w : NameWord} (h : w.Plain) {lead tail : List Char}
    (hlead : ∀ c ∈ lead, isBlank c = true) (htail : ∀ c ∈ tail, isBlank c = true) :
    normalParts (lead ++ (w.spelled ++ tail)) = normalParts w.value := by
  cases w with
  | bare first more =>
    obtain ⟨⟨hfirst, _⟩, hmore⟩ := h
    refine normalParts_blanks ?_ hlead htail
    rintro (_ | ⟨_, hdot⟩)
    · exact ne_dot_of_isIdentifierStart hfirst rfl
    · exact ne_dot_of_isIdentifierPart (hmore _ hdot) rfl
  | delimited mark inside =>
    obtain ⟨hmark, hplain⟩ := h
    have hends : isNameDelimiter mark = true ∧ isNameDelimiter (Scan.closing mark) = true ∧
        mark ≠ '.' ∧ Scan.closing mark ≠ '.' := by
      rcases hmark with rfl | rfl <;> decide
    have h := normalParts_delimited hplain hends.1 hends.2.1 hends.2.2 hlead htail
    simpa [NameWord.spelled, NameWord.value] using h

/-- A plain name stands for what its tokens hold. -/
theorem DottedName.normalParts_spelled {n : DottedName} (h : n.Plain) :
    normalParts n.spelled = normalParts n.value := by
  obtain ⟨first, more⟩ := n
  -- on the words, with the blanks in front of the first one
  have hwords : ∀ (more : List DottedWord) (first : NameWord) (lead : List Char), first.Plain →
      (∀ p ∈ more, p.Plain) → (∀ c ∈ lead, isBlank c = true) →
      normalParts (lead ++ (first.spelled ++ more.flatMap (·.spelled))) =
        normalParts (first.value ++ more.flatMap (·.value)) := by
    intro more
    induction more with
    | nil =>
      intro first lead hfirst _ hlead
      rw [List.flatMap_nil, List.flatMap_nil, List.append_nil first.value]
      exact first.normalParts_spelled hfirst hlead nofun
    | cons p more ih =>
      intro first lead hfirst hmore hlead
      have hp := hmore p List.mem_cons_self
      have hrest := ih p.word p.after hp.word (fun q hq => hmore q (List.mem_cons_of_mem p hq)) hp.after
      have hshape : lead ++ (first.spelled ++ (p :: more).flatMap (·.spelled)) =
          (lead ++ (first.spelled ++ p.before)) ++
            '.' :: (p.after ++ (p.word.spelled ++ more.flatMap (·.spelled))) := by
        simp [DottedWord.spelled]
      have hvalue : first.value ++ (p :: more).flatMap (·.value) =
          first.value ++ '.' :: (p.word.value ++ more.flatMap (·.value)) := by
        simp [DottedWord.value]
      rw [hshape, hvalue, normalParts_append, normalParts_append, hrest,
        first.normalParts_spelled hfirst hlead hp.before]
  exact hwords more first [] h.first h.more nofun

theorem normalizeName_congr {as bs : List Char} (h : normalParts as = normalParts bs) :
    normalizeName as = normalizeName bs := by
  rcases normalizeName_cases as with ⟨hname, hempty⟩ | ⟨object, hparts, hname⟩ | ⟨hsome, hschema, hname⟩
  · rw [hname, normalizeName_of_empty (h ▸ hempty)]
  · rw [hname, normalizeName_elided (h ▸ hparts)]
  · rw [hname, normalizeName_joined (h ▸ hsome) (h ▸ hschema), h]

theorem DottedName.ofChars_spelled {n : DottedName} (h : n.Plain) :
    Name.ofChars n.spelled = Name.ofChars n.value :=
  congrArg Name.mk (normalizeName_congr (n.normalParts_spelled h))

end SqlAtlas
