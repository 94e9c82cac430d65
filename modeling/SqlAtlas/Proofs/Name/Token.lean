import Mathlib.Tactic.Tauto
import SqlAtlas.Proofs.Name.Spelling
import SqlAtlas.Proofs.Token

/-!
# The tokens of a name

A plain name that nothing runs into is read as its words with periods between them, each at the
place where it stands. Blanks are passed over. No character of a bare word, and no blank, starts
anything else.
-/

namespace SqlAtlas

set_option autoImplicit false

open Text Scan

/-! ### Characters -/

def rangesApart (table other : List (Nat × Nat)) : Bool :=
  table.all fun r => other.all fun q => Nat.blt r.2 q.1 || Nat.blt q.2 r.1

theorem inRanges_of_apart {table other : List (Nat × Nat)} (h : rangesApart table other = true)
    {c : Char} (hc : inRanges other c = true) : inRanges table c = false := by
  rw [Bool.eq_false_iff]
  intro htable
  obtain ⟨r, hr, hfirst, hlast⟩ := (inRanges_eq_true_iff table c).mp htable
  obtain ⟨q, hq, hfirst', hlast'⟩ := (inRanges_eq_true_iff other c).mp hc
  have hapart := List.all_eq_true.mp (List.all_eq_true.mp h r hr) q hq
  rw [Bool.or_eq_true, Nat.blt_eq, Nat.blt_eq] at hapart
  omega

theorem blanks_apart : rangesApart letterRanges blankRanges = true ∧
    rangesApart letterNumberRanges blankRanges = true ∧
    rangesApart otherAlphabeticRanges blankRanges = true := by
  decide +kernel

theorem ne_of_class {k : Char → Bool} {c d : Char} (hc : k c = true) (hd : k d = false) :
    (c == d) = false := by
  rw [beq_eq_false_iff_ne]
  rintro rfl
  rw [hc] at hd
  cases hd

theorem isAscii_of_isDigit {c : Char} (h : c.isDigit = true) : isAscii c = true := by
  simp only [Char.isDigit, Bool.and_eq_true, decide_eq_true_eq, UInt32.le_iff_toNat_le] at h
  have hlast : c.toNat ≤ 57 := h.2
  simp only [isAscii, decide_eq_true_eq]
  omega

theorem isIdentifierPart_of_isBlank {c : Char} (h : isBlank c = true) :
    Dialect.isIdentifierPart .tsql c = false := by
  cases hascii : isAscii c with
  | true =>
    refine ascii_cases (P := fun c => isBlank c = true → Dialect.isIdentifierPart .tsql c = false)
      ?_ hascii h
    decide +kernel
  | false =>
    have hne : ∀ {d : Char}, isAscii d = true → (c == d) = false := by
      intro d hd
      rw [beq_eq_false_iff_ne]
      rintro rfl
      rw [hascii] at hd
      cases hd
    have hdigit : c.isDigit = false := by
      rw [Bool.eq_false_iff]
      intro hdigit
      rw [isAscii_of_isDigit hdigit] at hascii
      cases hascii
    have hrange : inRanges blankRanges c = true := by simpa [isBlank, hascii] using h
    obtain ⟨hletter, hnumber, hother⟩ := blanks_apart
    simp [Dialect.isIdentifierPart, isAlphabetic, isLetter, isLetterNumber, hascii, hdigit,
      inRanges_of_apart hletter hrange, inRanges_of_apart hnumber hrange,
      inRanges_of_apart hother hrange, hne (d := '@') rfl, hne (d := '$') rfl, hne (d := '#') rfl,
      hne (d := '_') rfl]

theorem isDigit_of_isBlank {c : Char} (h : isBlank c = true) : c.isDigit = false := by
  have hpart := isIdentifierPart_of_isBlank h
  simp only [Dialect.isIdentifierPart, Bool.or_eq_false_iff] at hpart
  exact hpart.1.1.1.1.2

theorem isIdentifierPart_of_start {c : Char} (h : Dialect.isIdentifierStart .tsql c = true) :
    Dialect.isIdentifierPart .tsql c = true := by
  simp only [Dialect.isIdentifierStart, Dialect.isIdentifierPart, Bool.or_eq_true] at h ⊢
  tauto

theorem isDigit_of_start {c : Char} (h : Dialect.isIdentifierStart .tsql c = true) :
    c.isDigit = false := by
  rw [Bool.eq_false_iff]
  intro hdigit
  have hall := ascii_cases (P := fun c => c.isDigit = true →
    Dialect.isIdentifierStart .tsql c = false) (by decide +kernel) (isAscii_of_isDigit hdigit) hdigit
  rw [h] at hall
  cases hall

/-! ### What stands at the front -/

theorem front_blank {c : Char} (h : isBlank c = true) (cs : List Char) :
    front .tsql c cs = .skip 0 := by
  have hpart := isIdentifierPart_of_isBlank h
  have hstart : Dialect.isIdentifierStart .tsql c = false := by
    rw [Bool.eq_false_iff]
    intro hstart
    rw [isIdentifierPart_of_start hstart] at hpart
    cases hpart
  have hdigit := isDigit_of_isBlank h
  have hne : ∀ d, isBlank d = false → (c == d) = false := fun d => ne_of_class h
  simp [front, literalLetter?, Dialect.isDelimitedStart, h, hstart, hdigit, hne 'e' rfl, hne 'E' rfl,
    hne 'n' rfl, hne 'N' rfl, hne 'x' rfl, hne 'X' rfl, hne '\'' rfl, hne '"' rfl, hne '[' rfl,
    hne '.' rfl, hne '(' rfl, hne ')' rfl, hne ',' rfl, hne ';' rfl, hne '-' rfl, hne '/' rfl,
    hne '#' rfl, hne '@' rfl, hne '?' rfl, hne '$' rfl]

structure EndsName (rest : List Char) : Prop where
  part : ∀ c, rest.head? = some c → Dialect.isIdentifierPart .tsql c = false
  quote : rest.head? ≠ some '\''
  delimiter : ∀ c, rest.head? = some c → isNameDelimiter c = false

theorem endsName_iff (rest : List Char) : EndsName rest ↔
    rest.head?.all (fun c => !Dialect.isIdentifierPart .tsql c) = true ∧ rest.head? ≠ some '\'' ∧
      rest.head?.all (fun c => !isNameDelimiter c) = true := by
  simp only [Option.all_eq_true, Bool.not_eq_true']
  exact ⟨fun h => ⟨h.part, h.quote, h.delimiter⟩, fun h => ⟨h.1, h.2.1, h.2.2⟩⟩

instance (rest : List Char) : Decidable (EndsName rest) :=
  decidable_of_iff _ (endsName_iff rest).symm

theorem endsName_of_head? {c : Char} {rest : List Char} (hc : rest.head? = some c)
    (hpart : Dialect.isIdentifierPart .tsql c = false) (hquote : c ≠ '\'')
    (hdelimiter : isNameDelimiter c = false) : EndsName rest := by
  rw [endsName_iff, hc]
  simp [hpart, hquote, hdelimiter]

theorem front_bare {first : Char} {more rest : List Char} (h : (NameWord.bare first more).Plain)
    (hrest : EndsName rest) :
    front .tsql first (more ++ rest) = .token (.word (first :: more) none) more.length := by
  obtain ⟨⟨hstart, hnumber, hat⟩, hmore⟩ := h
  have hne : ∀ d, Dialect.isIdentifierStart .tsql d = false → (first == d) = false :=
    fun d => ne_of_class hstart
  have hnumber' : (first == '#') = false := by simpa using hnumber
  have hat' : (first == '@') = false := by simpa using hat
  have hquote : ((more ++ rest).head? == some '\'') = false := by
    rw [beq_eq_false_iff_ne]
    cases more with
    | nil => exact hrest.quote
    | cons c more =>
      intro hc
      have hpart := hmore c List.mem_cons_self
      cases hc
      revert hpart
      decide
  have hword : (more ++ rest).takeWhile (Dialect.isIdentifierPart .tsql) = more := by
    rw [List.takeWhile_append_of_pos hmore]
    cases rest with
    | nil => simp
    | cons c rest => simp [hrest.part c rfl]
  generalize more ++ rest = cs at hquote hword
  simp [front, literalLetter?, Dialect.isDelimitedStart, hstart, isDigit_of_start hstart, hquote, hnumber',
    hat', hne ' ' rfl, hne '\t' rfl, hne '\n' rfl, hne '\r' rfl, hne '\'' rfl, hne '"' rfl,
    hne '[' rfl, hne '.' rfl, hne '(' rfl, hne ')' rfl, hne ',' rfl, hne ';' rfl, hne '-' rfl,
    hne '/' rfl, hne '?' rfl, wordFrom, hword]

theorem quotedBody_inside {close : Char} {inside rest : List Char} (hinside : close ∉ inside)
    (hrest : rest.head? ≠ some close) :
    quotedBody close false (inside ++ close :: rest) = some (inside, inside.length + 1) := by
  induction inside with
  | nil =>
    cases rest with
    | nil => simp [quotedBody]
    | cons d rest => simp [quotedBody, show d ≠ close by simpa using hrest]
  | cons c inside ih =>
    rw [List.mem_cons, not_or] at hinside
    have hc : (c == close) = false := by simpa using Ne.symm hinside.1
    rw [List.cons_append, quotedBody.eq_def]
    simp [hc, ih hinside.2]

theorem front_delimited {mark : Char} {inside rest : List Char}
    (h : (NameWord.delimited mark inside).Plain) (hrest : EndsName rest) :
    front .tsql mark (inside ++ [closing mark] ++ rest) =
      .token (.word inside (some mark)) (inside.length + 1) := by
  obtain ⟨hmark, hinside⟩ := h
  have hclosing : isNameDelimiter (closing mark) = true := by rcases hmark with rfl | rfl <;> rfl
  have hbody : quotedBody (closing mark) false (inside ++ [closing mark] ++ rest) =
      some (inside, inside.length + 1) := by
    rw [List.append_assoc, List.singleton_append]
    apply quotedBody_inside
    · intro hmem
      rw [hinside _ hmem] at hclosing
      cases hclosing
    · intro hhead
      rw [hrest.delimiter _ hhead] at hclosing
      cases hclosing
  generalize inside ++ [closing mark] ++ rest = cs at hbody
  rcases hmark with rfl | rfl <;>
    simp [front, literalLetter?, Dialect.isDelimitedStart, hbody, literalFrom]

theorem front_period {rest : List Char} (h : ∀ c, rest.head? = some c → c.isDigit = false) :
    front .tsql '.' rest = .token .period 0 := by
  have hdigits : rest.takeWhile Char.isDigit = [] := by
    cases rest with
    | nil => rfl
    | cons c rest => simp [h c rfl]
  simp [front, literalLetter?, Dialect.isDelimitedStart, numberAt, hdigits]

/-! ### Tokens of words and names -/

theorem lexemesFrom_blanks {blanks : List Char} (h : ∀ c ∈ blanks, isBlank c = true) (offset : Nat)
    (rest : List Char) :
    lexemesFrom .tsql offset (blanks ++ rest) = lexemesFrom .tsql (offset + size blanks) rest := by
  induction blanks generalizing offset with
  | nil => rfl
  | cons c blanks ih =>
    rw [List.cons_append, lexemesFrom, front_blank (h c List.mem_cons_self)]
    simp only [List.take_zero, List.drop_zero, size_cons, size_nil, Nat.add_zero]
    rw [ih fun d hd => h d (List.mem_cons_of_mem c hd), Nat.add_assoc]

theorem lexemesFrom_front {c : Char} {cs rest : List Char} {t : Token}
    (h : front .tsql c (cs ++ rest) = .token t cs.length) (offset : Nat) :
    lexemesFrom .tsql offset (c :: cs ++ rest) =
      (lexemesFrom .tsql (offset + size (c :: cs)) rest).map
        (⟨t, ⟨offset, offset + size (c :: cs)⟩⟩ :: ·) := by
  rw [List.cons_append, lexemesFrom, h]
  simp only [List.take_left, List.drop_left]

namespace NameWord

def lexeme (offset : Nat) (w : NameWord) : Lexeme := ⟨w.token, ⟨offset, offset + size w.spelled⟩⟩

theorem lexemesFrom_spelled {w : NameWord} (h : w.Plain) (offset : Nat) {rest : List Char}
    (hrest : EndsName rest) : lexemesFrom .tsql offset (w.spelled ++ rest) =
      (lexemesFrom .tsql (offset + size w.spelled) rest).map (w.lexeme offset :: ·) := by
  cases w with
  | bare first more => exact lexemesFrom_front (front_bare h hrest) offset
  | delimited mark inside =>
    refine lexemesFrom_front ?_ offset
    rw [front_delimited h hrest, List.length_append, List.length_singleton]
    rfl

theorem isDigit_head?_spelled {w : NameWord} (h : w.Plain) (rest : List Char) {c : Char}
    (hc : (w.spelled ++ rest).head? = some c) : c.isDigit = false := by
  cases w with
  | bare first more =>
    cases hc
    exact isDigit_of_start h.1.1
  | delimited mark inside =>
    cases hc
    rcases h.1 with rfl | rfl <;> rfl

end NameWord

namespace DottedWord

def lexemes (offset : Nat) (p : DottedWord) : List Lexeme :=
  [⟨.period, ⟨offset + size p.before, offset + size p.before + 1⟩⟩,
    p.word.lexeme (offset + size p.before + 1 + size p.after)]

theorem endsName {p : DottedWord} (h : p.Plain) (rest : List Char) : EndsName (p.spelled ++ rest) := by
  cases hbefore : p.before with
  | nil => exact endsName_of_head? (c := '.') (by simp [spelled, hbefore]) (by decide) (by decide) (by decide)
  | cons c before =>
    have hblank : isBlank c = true := h.before c (by rw [hbefore]; exact List.mem_cons_self)
    refine endsName_of_head? (c := c) (by simp [spelled, hbefore]) (isIdentifierPart_of_isBlank hblank) ?_ ?_
    · rintro rfl
      exact absurd hblank (by decide)
    · rw [Bool.eq_false_iff]
      intro hdelimiter
      rw [isBlank_of_isNameDelimiter hdelimiter] at hblank
      cases hblank

theorem lexemesFrom_spelled {p : DottedWord} (h : p.Plain) (offset : Nat) {rest : List Char}
    (hrest : EndsName rest) : lexemesFrom .tsql offset (p.spelled ++ rest) =
      (lexemesFrom .tsql (offset + size p.spelled) rest).map (p.lexemes offset ++ ·) := by
  have hdigit : ∀ c, (p.after ++ (p.word.spelled ++ rest)).head? = some c → c.isDigit = false := by
    intro c hc
    cases hafter : p.after with
    | nil =>
      rw [hafter] at hc
      exact p.word.isDigit_head?_spelled h.word rest hc
    | cons d after =>
      rw [hafter] at hc
      cases hc
      exact isDigit_of_isBlank (h.after _ (by rw [hafter]; exact List.mem_cons_self))
  have hperiod : lexemesFrom .tsql (offset + size p.before)
      ('.' :: (p.after ++ (p.word.spelled ++ rest))) =
        (lexemesFrom .tsql (offset + size p.before + 1) (p.after ++ (p.word.spelled ++ rest))).map
          (⟨.period, ⟨offset + size p.before, offset + size p.before + 1⟩⟩ :: ·) :=
    lexemesFrom_front (show front .tsql '.' ([] ++ _) = .token .period ([] : List Char).length from
      front_period hdigit) (offset + size p.before)
  have hsize : offset + size p.spelled =
      offset + size p.before + 1 + size p.after + size p.word.spelled := by
    simp only [spelled, size_append, size_cons, show '.'.utf8Size = 1 from rfl]
    omega
  rw [hsize, spelled, List.append_assoc, lexemesFrom_blanks h.before, List.cons_append,
    List.append_assoc, hperiod, lexemesFrom_blanks h.after,
    p.word.lexemesFrom_spelled h.word _ hrest, Option.map_map]
  rfl

end DottedWord

namespace DottedName

def moreLexemes (offset : Nat) : List DottedWord → List Lexeme
  | [] => []
  | p :: more => p.lexemes offset ++ moreLexemes (offset + size p.spelled) more

def lexemes (offset : Nat) (n : DottedName) : List Lexeme :=
  n.first.lexeme offset :: moreLexemes (offset + size n.first.spelled) n.more

theorem endsName_more {more : List DottedWord} (h : ∀ p ∈ more, p.Plain) {rest : List Char}
    (hrest : EndsName rest) : EndsName (more.flatMap (·.spelled) ++ rest) := by
  cases more with
  | nil => exact hrest
  | cons p more =>
    rw [List.flatMap_cons, List.append_assoc]
    exact p.endsName (h p List.mem_cons_self) _

theorem lexemesFrom_more {more : List DottedWord} (h : ∀ p ∈ more, p.Plain) (offset : Nat)
    {rest : List Char} (hrest : EndsName rest) :
    lexemesFrom .tsql offset (more.flatMap (·.spelled) ++ rest) =
      (lexemesFrom .tsql (offset + size (more.flatMap (·.spelled))) rest).map
        (moreLexemes offset more ++ ·) := by
  induction more generalizing offset with
  | nil => simp [moreLexemes]
  | cons p more ih =>
    have hmore : ∀ q ∈ more, q.Plain := fun q hq => h q (List.mem_cons_of_mem p hq)
    rw [List.flatMap_cons, List.append_assoc, p.lexemesFrom_spelled (h p List.mem_cons_self) _
      (endsName_more hmore hrest), ih hmore, Option.map_map, size_append, Nat.add_assoc]
    simp [moreLexemes, Function.comp_def]

/-- A plain name that ends is read as its words and periods. -/
theorem lexemesFrom_spelled {n : DottedName} (h : n.Plain) (offset : Nat) {rest : List Char}
    (hrest : EndsName rest) : lexemesFrom .tsql offset (n.spelled ++ rest) =
      (lexemesFrom .tsql (offset + size n.spelled) rest).map (n.lexemes offset ++ ·) := by
  rw [spelled, List.append_assoc, n.first.lexemesFrom_spelled h.first _ (endsName_more h.more hrest),
    lexemesFrom_more h.more _ hrest, Option.map_map, size_append, Nat.add_assoc]
  rfl

end DottedName

end SqlAtlas
