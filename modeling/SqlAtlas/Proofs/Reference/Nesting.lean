import SqlAtlas.Proofs.Name.Letters
import SqlAtlas.Proofs.Reference.Naming
import SqlAtlas.Proofs.Reference.Place
import SqlAtlas.Proofs.Text.Line

/-!
# Table names within table names

The words that introduce tables are searched for in delimited names too, so the name behind one word
may hold another word and the name behind that. Then it has all letters of the inner name and those of
the word, and the two names differ even where their last parts stand at the same place.
-/

namespace SqlAtlas

set_option autoImplicit false

open Text Pattern

/-! ### Cases of letters -/

theorem Text.isPunctuation_of_isLower {c : Char} (h : c.isLower = true) : isPunctuation c = false := by
  have hbounds : 97 ≤ c.toNat ∧ c.toNat ≤ 122 := by
    change (decide ('a'.val ≤ c.val) && decide (c.val ≤ 'z'.val)) = true at h
    rwa [Bool.and_eq_true, decide_eq_true_eq, decide_eq_true_eq] at h
  have hascii : isAscii c = true := by
    rw [isAscii, decide_eq_true_eq]
    omega
  have halpha : c.isAlpha = true := by
    change (c.isUpper || c.isLower) = true
    rw [h, Bool.or_true]
  have hspace : c ≠ ' ' := by
    rintro rfl
    exact absurd hbounds.1 (by decide)
  simp only [isPunctuation, isBlank, hascii, if_true, halpha, Bool.not_true, Bool.and_false,
    Bool.or_false, Bool.or_eq_false_iff, beq_eq_false_iff_ne, ne_eq, hspace, not_false_eq_true,
    true_and, Bool.and_eq_false_iff, decide_eq_false_iff_not]
  omega

theorem Text.toUpper_eq_self {c : Char} (h : c.isLower = false) : c.toUpper = c := by
  change (decide ('a'.val ≤ c.val) && decide (c.val ≤ 'z'.val)) = false at h
  rw [Bool.and_eq_false_iff, decide_eq_false_iff_not, decide_eq_false_iff_not] at h
  exact dif_neg fun hboth => h.elim (· hboth.1) (· hboth.2)

theorem Pattern.isPunctuation_of_isCaseOf {u c : Char} (hu : isPunctuation u = false)
    (h : isCaseOf u c = true) : isPunctuation c = false := by
  simp only [isCaseOf, Bool.or_eq_true, Bool.and_eq_true, beq_iff_eq] at h
  rcases h with (h | ⟨_, rfl⟩) | ⟨_, rfl⟩
  · cases hlower : c.isLower with
    | true => exact isPunctuation_of_isLower hlower
    | false =>
      rw [toUpper_eq_self hlower] at h
      rw [h]
      exact hu
  · decide +kernel
  · decide +kernel

namespace Usage

/-! ### Introduced names -/

structure Introduced (s : Source) (word here : Span) : Prop where
  letters : ∃ chars, IsPiece s.masked word chars ∧ 4 ≤ chars.length ∧
    ∀ c ∈ chars, isPunctuation c = false
  gap : ∃ chars, IsPiece s.masked ⟨word.stop, here.start⟩ chars ∧ ∀ c ∈ chars, isBlank c = true

def wordSpan (s : Source) (f : Found Nat) : Span :=
  spanAfter f.offset (dropBytes f.offset s.masked) 0 f.value

def nameBehind? (s : Source) (line : Span) (f : Found Nat) : Option Span := do
  let rest := slice s.masked ⟨(wordSpan s f).stop, line.stop⟩
  let b ← someBlanks? rest
  let n ← dottedName? false 3 (rest.drop b)
  let name := spanAfter (wordSpan s f).stop rest b n
  if isBareKeyword (slice s.chars name) then none else some name

theorem tableNames_eq (s : Source) (line : Span) : tableNames s line =
    (findAll tableWord? line.start (slice s.masked line)).filterMap (nameBehind? s line) := rfl

theorem plain_of_mem_tableWords {word : String} (h : word ∈ tableWords) : 4 ≤ word.toList.length ∧
    ∀ u ∈ word.toList, isPunctuation u = false := by
  have hall : (tableWords.all fun w => decide (4 ≤ w.toList.length) &&
      w.toList.all fun u => !isPunctuation u) = true := by decide +kernel
  simpa using List.all_eq_true.mp hall word h

variable {s : Source} {before line after : List Char}

theorem piece_wordSpan (hmasked : s.masked = before ++ (line ++ after)) {f : Found Nat}
    (h : f ∈ findAll tableWord? (size before) line) : ∃ chars, IsPiece s.masked (wordSpan s f) chars ∧
      4 ≤ chars.length ∧ ∀ c ∈ chars, isPunctuation c = false := by
  obtain ⟨word, hword, lead, keyword, behind, hline, hoffset, hvalue, hlength, hcases⟩ :=
    tableWord_of_find h
  obtain ⟨hlong, hplain⟩ := plain_of_mem_tableWords hword
  refine ⟨keyword, ?_, hlength ▸ hlong, fun c hc => ?_⟩
  · refine ⟨before ++ lead, behind ++ after, by rw [hmasked, hline]; simp only [List.append_assoc], ?_⟩
    rw [wordSpan, hoffset, dropBytes_line hmasked hline, hvalue, List.append_assoc, spanAfter,
      List.drop_zero, List.take_left, size_append]
    rfl
  · obtain ⟨u, hu, hcase⟩ := hcases c hc
    exact isPunctuation_of_isCaseOf (hplain u hu) hcase

theorem introduced_of_find (hmasked : s.masked = before ++ (line ++ after)) {f : Found Nat}
    (hf : f ∈ findAll tableWord? (size before) line) {here : Span}
    (h : nameBehind? s ⟨size before, size before + size line⟩ f = some here) :
    Introduced s (wordSpan s f) here := by
  refine ⟨piece_wordSpan hmasked hf, ?_⟩
  obtain ⟨lead, behind, _, hafter, hbehind⟩ := behind_tableWord hmasked hf
  change (wordSpan s f).stop = _ at hafter
  simp only [nameBehind?, hafter, hbehind.slice_eq, Option.bind_eq_bind] at h
  obtain ⟨b, hb, h⟩ := Option.bind_eq_some_iff.mp h
  obtain ⟨n, _, h⟩ := Option.bind_eq_some_iff.mp h
  split at h
  · cases h
  · cases h
    have hgap := hbehind.spanAfter 0 b
    refine ⟨behind.take b, ?_, ?_⟩
    · rw [hafter]
      exact hgap
    · have hblanks : b = (behind.takeWhile isBlank).length := by
        rw [someBlanks?] at hb
        split at hb
        · cases hb
        · rename_i n hn
          cases hb
          exact hn.symm
      intro c hc
      rw [hblanks, List.prefix_iff_eq_take.mp (List.takeWhile_prefix isBlank) |>.symm] at hc
      exact List.mem_takeWhile_imp hc

/-- Words that introduce tables follow one another without sharing a character. -/
theorem words_apart (hmasked : s.masked = before ++ (line ++ after)) :
    (findAll tableWord? (size before) line).Pairwise fun f g => (wordSpan s f).stop ≤ g.offset := by
  refine (finds_ascending (fun _ => 0) id ?_ hmasked).imp id
  intro prev cs n more hfound
  obtain ⟨_, _, front, rest, rfl, rfl, rfl, _⟩ := tableWord?_eq_some hfound
  rw [List.length_append, id]
  omega

/-- A later word does not start before the name that an earlier one introduces. -/
theorem Introduced.start_le {word here word' here' : Span} (h : Introduced s word here)
    (h' : Introduced s word' here') (hle : word.stop ≤ word'.start) : here.start ≤ word'.start := by
  obtain ⟨blanks, hgap, hblanks⟩ := h.gap
  obtain ⟨chars, hword, hlong, hplain⟩ := h'.letters
  obtain ⟨c, rest, rfl⟩ := List.exists_cons_of_length_pos (Nat.lt_of_lt_of_le (Nat.zero_lt_succ 3) hlong)
  by_contra hlt
  have hblank := hblanks c (hgap.mem_of_start hword hle (Nat.lt_of_not_le hlt))
  have hpunctuation := hplain c List.mem_cons_self
  rw [isPunctuation_of_isBlank c hblank] at hpunctuation
  cases hpunctuation

/-! ### Names within names -/

section

variable {uri : String} {cs : List Char} {scopes : FileScopes}

theorem NameIn.lastPart_piece {around here p : Span} (h : NameIn (.ofText uri cs scopes) around here)
    (hp : lastPart? (slice cs here) here.start = some p) : (∃ kept, IsPiece cs p kept) ∧
      ∃ front tail, slice cs here = front ++ tail ∧ IsPiece cs ⟨here.start, p.stop⟩ front ∧
        p.stop ≤ here.stop ∧ ∀ c ∈ tail, isNameDelimiter c = true := by
  obtain ⟨raw, hpiece, hlast⟩ := h.spelling
  rw [hpiece.slice_eq] at hp ⊢
  obtain ⟨part, hpart, rfl⟩ := Option.map_eq_some_iff.mp hp
  have hpart := (Option.filter_eq_some_iff.mp hpart).1
  obtain ⟨kept, hkept⟩ := isPiece_of_mem_partSpans (List.mem_of_getLast? hpart)
  obtain ⟨front, tail, rfl, htail, hsize⟩ := partSpans_tail hlast hpart
  have hfront : IsPiece (front ++ tail) ⟨0, part.stop⟩ front :=
    ⟨[], tail, rfl, by rw [size_nil, Nat.zero_add, hsize]⟩
  refine ⟨⟨kept, hpiece.within hkept⟩, front, tail, rfl, hpiece.within hfront, ?_, htail⟩
  rw [hpiece.stop_eq, size_append, hsize]
  exact Nat.add_le_add_left (Nat.le_add_right _ _) _

/-- A name with a word and another name in it has more letters, if their last parts end together. -/
theorem letters_of_nested {around around' here word here' p : Span}
    (h : NameIn (.ofText uri cs scopes) around here) (h' : NameIn (.ofText uri cs scopes) around' here')
    (hword : Introduced (.ofText uri cs scopes) word here') (hstart : here.start ≤ word.start)
    (hp : lastPart? (slice cs here) here.start = some p)
    (hp' : lastPart? (slice cs here') here'.start = some p) :
    letters (slice cs here') + 4 ≤ letters (slice cs here) := by
  obtain ⟨_, _, _, _, _, hstop, _⟩ := h.lastPart_piece hp
  obtain ⟨_, front, tail, hraw', hfront, _, htail⟩ := h'.lastPart_piece hp'
  obtain ⟨raw, hpiece, _⟩ := h.spelling
  obtain ⟨chars, hchars, hlong, hplain⟩ := hword.letters
  obtain ⟨blanks, hgap, _⟩ := hword.gap
  have hspace : ∀ c ∈ chars, c ≠ ' ' := by
    rintro c hc rfl
    exact absurd (hplain _ hc) (by decide +kernel)
  have hne : chars ≠ [] := List.ne_nil_of_length_pos (by omega)
  have hmasked : IsPiece (mask (fun r => r == .comment || r == .literal) cs) word chars := hchars
  have hkeyword := mask_plain hmasked hne hspace
  have hbehind := hgap.start_le_stop
  have hinner := hfront.start_le_stop
  simp only at hbehind hinner
  -- the outer name is what is before the word, the word, what is between, and the inner name
  obtain ⟨lead, rest, hraw, hrest⟩ := hpiece.split_at hkeyword hstart (by omega)
  obtain ⟨between, behind, hrest, _⟩ := hrest.split_at hfront hbehind hstop
  have hmany := length_le_letters hplain
  rw [hpiece.slice_eq, hraw, hrest, hraw']
  simp only [letters_append]
  rw [letters_eq_zero fun c hc => isPunctuation_of_isNameDelimiter c (htail c hc)]
  omega

/-- Of two tables in a line, the later one is introduced by a word that does not start before the
earlier one. -/
theorem tableNames_pairwise {l : Text.Line} (hl : l ∈ lines cs) :
    (tableNames (.ofText uri cs scopes) l.span).Pairwise fun here here' =>
      ∃ word, Introduced (.ofText uri cs scopes) word here' ∧ here.start ≤ word.start := by
  obtain ⟨before, line, after, hmasked, hspan⟩ : ∃ before line after,
    (Source.ofText uri cs scopes).masked = before ++ (line ++ after) ∧
      l.span = ⟨size before, size before + size line⟩ := masked_line hl
  rw [hspan, tableNames_eq, List.pairwise_filterMap, hmasked, slice_append]
  refine (words_apart hmasked).imp_of_mem ?_
  intro f g hf hg hle here hhere here' hhere'
  have hlater := introduced_of_find hmasked hg hhere'
  exact ⟨_, hlater, (introduced_of_find hmasked hf hhere).start_le hlater hle⟩

theorem tables_nodup {l : Text.Line} (hl : l ∈ lines cs) :
    (tables (.ofText uri cs scopes) l.span).emissions.Nodup := by
  rw [tables, List.Nodup, List.pairwise_filterMap]
  refine (tableNames_pairwise hl).imp_of_mem ?_
  rintro here here' hhere hhere' ⟨word, hword, hstart⟩ e he e' he' rfl
  have hin := nameIn_of_mem_claimedFirst hl (List.mem_append_left _ hhere)
  have hin' := nameIn_of_mem_claimedFirst hl (List.mem_append_left _ hhere')
  have hline : ∀ {here p : Span}, NameIn (.ofText uri cs scopes) l.span here →
      lastPart? (slice cs here) here.start = some p → ∃ kept, IsPiece cs p kept ∧ '\n' ∉ kept := by
    intro here p hin hp
    obtain ⟨⟨kept, hkept⟩, _, _, _, _, hstop, _⟩ := hin.lastPart_piece hp
    exact ⟨kept, hkept, newline_notMem_of_within hl hkept
      (Nat.le_trans hin.after_start (hin.lastPart_start hp).1) (Nat.le_trans hstop hin.before_stop)⟩
  obtain ⟨name, p, hp, rfl⟩ := tableEmission?_eq_some he
  obtain ⟨name', p', hp', heq⟩ := tableEmission?_eq_some he'
  obtain ⟨kept, hkept, hplain⟩ := hline hin hp
  obtain ⟨kept', hkept', hplain'⟩ := hline hin' hp'
  have hname : name = .ofChars (slice cs here) := (tableEmission?_name he).2
  have hname' : name = .ofChars (slice cs here') := (tableEmission?_name he').2
  simp only [Source.emit, Emission.reference.injEq, Reference.mk.injEq] at heq
  obtain rfl := hkept.eq_of_extent hkept' hplain hplain' heq.2.2.1
  refine normalizeName_ne_of_letters (letters_of_nested hin hin' hword hstart hp hp') ?_
  exact congrArg Name.chars (hname'.symm.trans hname)

end

end Usage

end SqlAtlas
