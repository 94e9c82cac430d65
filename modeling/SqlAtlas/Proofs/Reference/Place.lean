import Mathlib.Data.List.Pairwise
import SqlAtlas.Proofs.Name
import SqlAtlas.Proofs.Reference.Emission
import SqlAtlas.Proofs.Text.Mask

/-!
# Where usages stand

The names that the readings of a line find are solid pieces of it. Bare words follow one another
without sharing a byte, and leave alone what the readings for tables and routines claim. So the
place of a bare column is neither that of another one nor that of a table or a routine.
-/

namespace SqlAtlas.Usage

set_option autoImplicit false

open Text Pattern

structure NameIn (s : Source) (line here : Span) : Prop where
  piece : ∃ word, IsPiece s.masked here word ∧ Solid word
  after_start : line.start ≤ here.start
  before_stop : here.stop ≤ line.stop

theorem nameIn_of_split {s : Source} {before line after lead word tail : List Char}
    (hmasked : s.masked = before ++ (line ++ after)) (hline : line = lead ++ (word ++ tail))
    (hsolid : Solid word) :
    NameIn s ⟨size before, size before + size line⟩
      ⟨size before + size lead, size before + size lead + size word⟩ := by
  refine ⟨⟨word, ⟨before ++ lead, tail ++ after, ?_, ?_⟩, hsolid⟩, Nat.le_add_right _ _, ?_⟩
  · rw [hmasked, hline]
    simp only [List.append_assoc]
  · rw [size_append]
  · rw [hline, size_append, size_append]
    simp only
    omega

theorem dropBytes_line {text before line after lead rest : List Char}
    (htext : text = before ++ (line ++ after)) (hline : line = lead ++ rest) :
    dropBytes (size before + size lead) text = rest ++ after := by
  rw [htext, hline, ← size_append, List.append_assoc, ← List.append_assoc, dropBytes_size_append]

theorem finds_ascending {α : Type} {recognise : Option Char → List Char → Option (α × Nat)}
    (skip count : α → Nat) (hbounds : ∀ {prev cs a more}, recognise prev cs = some (a, more) →
      skip a + count a ≤ more + 1 ∧ skip a + count a ≤ cs.length)
    {s : Source} {before line after : List Char} (hmasked : s.masked = before ++ (line ++ after)) :
    (findAll recognise (size before) line).Pairwise fun f g =>
      (spanAfter f.offset (dropBytes f.offset s.masked) (skip f.value) (count f.value)).stop ≤
        g.offset := by
  refine (findAllFrom_ascending (fun a => skip a + count a) (fun h => (hbounds h).1) none
    (size before) line).imp_of_mem ?_
  intro f g hf _ hfg
  obtain ⟨lead, rest, _, more, hline, hoffset, hfound⟩ := findAllFrom_piece hf
  have hlength := (hbounds hfound).2
  have hnext := hfg lead rest hline hoffset
  rw [List.take_add, size_append] at hnext
  have hspan : spanAfter f.offset (dropBytes f.offset s.masked) (skip f.value) (count f.value) =
      spanAfter f.offset rest (skip f.value) (count f.value) := by
    rw [hoffset, dropBytes_line hmasked hline, spanAfter, spanAfter,
      List.take_append_of_le_length (by omega), List.drop_append_of_le_length (by omega),
      List.take_append_of_le_length (by rw [List.length_drop]; omega)]
  rw [hspan, spanAfter]
  simp only
  omega

/-! ### Words -/

theorem word_of_find {s : Source} {before line after : List Char}
    (hmasked : s.masked = before ++ (line ++ after)) {f : Found Nat}
    (h : f ∈ findAll (fun _ cs => (identifier? false cs).map fun n => (n, n - 1)) (size before) line) :
    ∃ lead word tail, line = lead ++ (word ++ tail) ∧ Solid word ∧
      f.offset = size before + size lead ∧ f.value = word.length ∧
      spanAfter f.offset (dropBytes f.offset s.masked) 0 f.value =
        ⟨size before + size lead, size before + size lead + size word⟩ := by
  obtain ⟨lead, rest, _, more, hline, hoffset, hfound⟩ := findAllFrom_piece h
  obtain ⟨n, hn, heq⟩ := Option.map_eq_some_iff.mp hfound
  cases heq
  obtain ⟨word, tail, rfl, hvalue, hsolid⟩ := identifier?_eq_some hn
  refine ⟨lead, word, tail, hline, hsolid, hoffset, hvalue, ?_⟩
  rw [hoffset, dropBytes_line hmasked hline, hvalue, spanAfter]
  simp

theorem nameIn_of_mem_words {s : Source} {before line after : List Char}
    (hmasked : s.masked = before ++ (line ++ after)) {here : Span}
    (h : here ∈ words s ⟨size before, size before + size line⟩) :
    NameIn s ⟨size before, size before + size line⟩ here := by
  rw [words, hmasked, slice_append, ← hmasked] at h
  obtain ⟨f, hf, rfl⟩ := List.mem_map.mp h
  obtain ⟨lead, word, tail, hline, hsolid, _, _, hspan⟩ := word_of_find hmasked hf
  rw [hspan]
  exact nameIn_of_split hmasked hline hsolid

theorem words_ascending {s : Source} {before line after : List Char}
    (hmasked : s.masked = before ++ (line ++ after)) :
    (words s ⟨size before, size before + size line⟩).Pairwise fun here next => here.stop ≤ next.start := by
  rw [words, hmasked, slice_append, ← hmasked, List.pairwise_map]
  refine (finds_ascending (fun _ => 0) id ?_ hmasked).imp fun h => Nat.le_trans h (Nat.le_add_right _ _)
  intro prev cs n more hfound
  obtain ⟨m, hm, heq⟩ := Option.map_eq_some_iff.mp hfound
  cases heq
  obtain ⟨word, rest, rfl, rfl, _⟩ := identifier?_eq_some hm
  rw [List.length_append, id]
  omega

/-! ### Tables and routines -/

theorem tableWord?_eq_some {prev : Option Char} {cs : List Char} {n more : Nat}
    (h : tableWord? prev cs = some (n, more)) : ∃ word ∈ tableWords, ∃ front rest,
      cs = front ++ rest ∧ n = front.length ∧ more = n - 1 ∧ front.length = word.toList.length ∧
        ∀ c ∈ front, ∃ u ∈ word.toList, isCaseOf u c = true := by
  rw [tableWord?] at h
  split at h
  · cases h
  · obtain ⟨m, hm, heq⟩ := Option.map_eq_some_iff.mp h
    cases heq
    obtain ⟨word, hword, hm⟩ := List.exists_of_findSome?_eq_some hm
    obtain ⟨front, rest, hcs, hn, hfront⟩ := word?_eq_some (Option.filter_eq_some_iff.mp hm).1
    exact ⟨word, hword, front, rest, hcs, hn, rfl, hfront⟩

theorem nameIn_spanAfter {s : Source} {before line after lead rest word tail : List Char} {k : Nat}
    (hmasked : s.masked = before ++ (line ++ after)) (hline : line = lead ++ rest)
    (hdrop : rest.drop k = word ++ tail) (hsolid : Solid word) (more : List Char) :
    NameIn s ⟨size before, size before + size line⟩
      (spanAfter (size before + size lead) (rest ++ more) k word.length) := by
  obtain ⟨hrest, hlength⟩ := eq_of_drop hdrop hsolid.ne_nil
  generalize rest.take k = skipped at hrest hlength
  subst hrest hlength
  have hspan : spanAfter (size before + size lead) (skipped ++ (word ++ tail) ++ more) skipped.length
      word.length =
        ⟨size before + size (lead ++ skipped), size before + size (lead ++ skipped) + size word⟩ := by
    rw [spanAfter, List.append_assoc, List.take_left, List.drop_left, List.append_assoc,
      List.take_left, size_append, Nat.add_assoc]
  rw [hspan]
  exact nameIn_of_split hmasked (by rw [hline, List.append_assoc]) hsolid

theorem tableWord_of_find {offset : Nat} {line : List Char} {f : Found Nat}
    (h : f ∈ findAll tableWord? offset line) : ∃ word ∈ tableWords, ∃ lead keyword behind,
      line = lead ++ (keyword ++ behind) ∧ f.offset = offset + size lead ∧ f.value = keyword.length ∧
        keyword.length = word.toList.length ∧ ∀ c ∈ keyword, ∃ u ∈ word.toList, isCaseOf u c = true := by
  obtain ⟨lead, rest, _, more, hline, hoffset, hfound⟩ := findAllFrom_piece h
  obtain ⟨word, hword, keyword, behind, rfl, hvalue, _, hkeyword⟩ := tableWord?_eq_some hfound
  exact ⟨word, hword, lead, keyword, behind, hline, hoffset, hvalue, hkeyword⟩

theorem behind_tableWord {s : Source} {before line after : List Char}
    (hmasked : s.masked = before ++ (line ++ after)) {f : Found Nat}
    (h : f ∈ findAll tableWord? (size before) line) : ∃ lead behind, line = lead ++ behind ∧
      f.offset + size ((dropBytes f.offset s.masked).take f.value) = size before + size lead ∧
      IsPiece s.masked ⟨size before + size lead, size before + size line⟩ behind := by
  obtain ⟨_, _, lead, keyword, behind, hline, hoffset, hvalue, _⟩ := tableWord_of_find h
  refine ⟨lead ++ keyword, behind, by rw [hline, List.append_assoc], ?_, ?_⟩
  · rw [hoffset, dropBytes_line hmasked hline, hvalue, List.append_assoc, List.take_left,
      size_append, Nat.add_assoc]
  · refine ⟨before ++ (lead ++ keyword), after, by rw [hmasked, hline]; simp only [List.append_assoc], ?_⟩
    rw [hline]
    simp only [size_append, Nat.add_assoc]

theorem nameIn_behind {s : Source} {before line after lead behind : List Char}
    (hmasked : s.masked = before ++ (line ++ after)) (hline : line = lead ++ behind) {b n : Nat}
    (hn : dottedName? false 3 (behind.drop b) = some n) :
    NameIn s ⟨size before, size before + size line⟩
      (spanAfter (size before + size lead) behind b n) := by
  obtain ⟨word, tail, hdrop, rfl, hsolid⟩ := dottedName?_eq_some hn
  have hin := nameIn_spanAfter hmasked hline hdrop hsolid []
  rwa [List.append_nil] at hin

theorem nameIn_of_mem_tableNames {s : Source} {before line after : List Char}
    (hmasked : s.masked = before ++ (line ++ after)) {here : Span}
    (h : here ∈ tableNames s ⟨size before, size before + size line⟩) :
    NameIn s ⟨size before, size before + size line⟩ here := by
  rw [tableNames, hmasked, slice_append, ← hmasked] at h
  obtain ⟨f, hf, hname⟩ := List.mem_filterMap.mp h
  obtain ⟨lead, behind, hline, hafter, hbehind⟩ := behind_tableWord hmasked hf
  simp only [hafter, hbehind.slice_eq, Option.bind_eq_bind] at hname
  obtain ⟨b, _, hname⟩ := Option.bind_eq_some_iff.mp hname
  obtain ⟨n, hn, hname⟩ := Option.bind_eq_some_iff.mp hname
  split at hname
  · cases hname
  · cases hname
    exact nameIn_behind hmasked hline hn

theorem call?_eq_some {prev : Option Char} {cs : List Char} {start n more : Nat}
    (h : call? prev cs = some ((start, n), more)) : more = start + n - 1 ∧
      ∃ word tail, cs.drop start = word ++ tail ∧ n = word.length ∧ Solid word := by
  simp only [call?, Option.bind_eq_bind] at h
  split at h
  · cases h
  · obtain ⟨a, _, h⟩ := Option.bind_eq_some_iff.mp h
    obtain ⟨⟨start', n'⟩, hfound, heq⟩ := Option.bind_eq_some_iff.mp h
    cases heq
    refine ⟨rfl, ?_⟩
    rw [Option.orElse_eq_orElse, Option.orElse_eq_or, Option.or_eq_some_iff] at hfound
    rcases hfound with hfound | ⟨_, hfound⟩
    · obtain ⟨v, _, hfound⟩ := Option.bind_eq_some_iff.mp hfound
      obtain ⟨m, hm, heq⟩ := Option.bind_eq_some_iff.mp hfound
      cases heq
      rw [List.drop_drop] at hm
      exact dottedName?_eq_some hm
    · obtain ⟨m, hm, heq⟩ := Option.map_eq_some_iff.mp hfound
      cases heq
      exact dottedName?_eq_some hm

theorem nameIn_of_mem_callNames {s : Source} {before line after : List Char}
    (hmasked : s.masked = before ++ (line ++ after)) {here : Span}
    (h : here ∈ callNames s ⟨size before, size before + size line⟩) :
    NameIn s ⟨size before, size before + size line⟩ here := by
  rw [callNames, hmasked, slice_append, ← hmasked] at h
  obtain ⟨f, hf, rfl⟩ := List.mem_map.mp h
  obtain ⟨lead, rest, _, more, hline, hoffset, hfound⟩ := findAllFrom_piece hf
  obtain ⟨_, word, tail, hdrop, hlength, hsolid⟩ := call?_eq_some hfound
  rw [hoffset, dropBytes_line hmasked hline, hlength]
  exact nameIn_spanAfter hmasked hline hdrop hsolid after

theorem callNames_ascending {s : Source} {before line after : List Char}
    (hmasked : s.masked = before ++ (line ++ after)) :
    (callNames s ⟨size before, size before + size line⟩).Pairwise
      fun here next => here.stop ≤ next.start := by
  rw [callNames, hmasked, slice_append, ← hmasked, List.pairwise_map]
  refine (finds_ascending Prod.fst Prod.snd ?_ hmasked).imp
    fun h => Nat.le_trans h (Nat.le_add_right _ _)
  rintro prev cs ⟨start, n⟩ more hfound
  obtain ⟨rfl, word, tail, hdrop, rfl, hsolid⟩ := call?_eq_some hfound
  obtain ⟨hcs, hlength⟩ := eq_of_drop hdrop hsolid.ne_nil
  have htotal := congrArg List.length hcs
  rw [List.length_append, List.length_append, hlength] at htotal
  simp only
  omega

/-! ### Qualified names -/

theorem qualifiedName?_eq_some {cs : List Char} {n more : Nat} (h : qualifiedName? cs = some (n, more)) :
    n = more + 1 ∧ ∃ word tail, cs = word ++ tail ∧ n = word.length ∧ Solid word := by
  rw [qualifiedName?, Option.bind_eq_bind] at h
  obtain ⟨m, hm, h⟩ := Option.bind_eq_some_iff.mp h
  obtain ⟨word, rest, rfl, rfl, hsolid⟩ := identifier?_eq_some hm
  rw [List.drop_left] at h
  rcases dotParts_cases false 3 rest with hnone | ⟨lead, word', tail, rfl, hparts, hsolid'⟩
  · rw [hnone] at h
    cases h
  · rw [hparts] at h
    split at h
    · cases h
    · rename_i m hm
      cases h
      refine ⟨rfl, word ++ lead ++ word', tail, by simp only [List.append_assoc], ?_,
        hsolid.append hsolid'⟩
      rw [List.length_append, List.length_append, Nat.add_assoc, hm]

theorem nameIn_of_find_qualified {s : Source} {before line after : List Char}
    (hmasked : s.masked = before ++ (line ++ after)) {f : Found Nat}
    (h : f ∈ findAll (fun _ cs => qualifiedName? cs) (size before) line) :
    NameIn s ⟨size before, size before + size line⟩
      (spanAfter f.offset (dropBytes f.offset s.masked) 0 f.value) := by
  obtain ⟨lead, rest, _, more, hline, hoffset, hfound⟩ := findAllFrom_piece h
  obtain ⟨_, word, tail, hrest, hlength, hsolid⟩ := qualifiedName?_eq_some hfound
  rw [← List.drop_zero (l := rest)] at hrest
  rw [hoffset, dropBytes_line hmasked hline, hlength]
  exact nameIn_spanAfter hmasked hline hrest hsolid after

theorem claimQualified_sublist (s : Source) (claimed : List Span) (found : List (Found Nat)) :
    (claimQualified s claimed found).Sublist
      (found.map fun f => spanAfter f.offset (dropBytes f.offset s.masked) 0 f.value) := by
  induction found generalizing claimed with
  | nil => exact List.Sublist.refl _
  | cons f found ih =>
    rw [claimQualified]
    split
    · exact (ih _).cons _
    · exact (ih _).cons_cons _

theorem qualified_ascending {s : Source} {before line after : List Char}
    (hmasked : s.masked = before ++ (line ++ after)) (claimed : List Span) :
    (qualified s claimed ⟨size before, size before + size line⟩).claimed.Pairwise
      fun here next => here.stop ≤ next.start := by
  rw [qualified, hmasked, slice_append]
  refine List.Pairwise.sublist (claimQualified_sublist _ _ _) (List.pairwise_map.mpr ?_)
  refine (finds_ascending (fun _ => 0) id ?_ hmasked).imp fun h => Nat.le_trans h (Nat.le_add_right _ _)
  intro prev cs n more hfound
  obtain ⟨rfl, word, tail, rfl, hlength, _⟩ := qualifiedName?_eq_some hfound
  rw [List.length_append, id]
  omega

/-! ### Names in the text -/

section

variable {uri : String} {cs : List Char} {scopes : FileScopes}

theorem NameIn.spelling {line here : Span} (h : NameIn (.ofText uri cs scopes) line here) :
    ∃ raw, IsPiece cs here raw ∧ ∃ c, raw.getLast? = some c ∧ isSolid c = true := by
  obtain ⟨word, hpiece, hsolid⟩ := h.piece
  exact hsolid.unmasked hpiece

theorem NameIn.bareSpan_start {line here : Span} (h : NameIn (.ofText uri cs scopes) line here) :
    here.start ≤ (bareSpan (.ofText uri cs scopes) here).start ∧
      (bareSpan (.ofText uri cs scopes) here).start < here.stop := by
  obtain ⟨raw, hpiece, hlast⟩ := h.spelling
  obtain ⟨part, hpart, hstart⟩ := partSpans_last hlast
  have hspan : bareSpan (.ofText uri cs scopes) here =
      ⟨here.start + part.start, here.start + part.stop⟩ := by
    change (((partSpans (slice cs here)).getLast?).map _).getD here = _
    rw [hpiece.slice_eq, hpart]
    rfl
  rw [hspan, hpiece.stop_eq]
  exact ⟨Nat.le_add_right _ _, Nat.add_lt_add_left hstart _⟩

theorem NameIn.lastPart_start {line here p : Span} (h : NameIn (.ofText uri cs scopes) line here)
    (hp : lastPart? (slice cs here) here.start = some p) :
    here.start ≤ p.start ∧ p.start < here.stop := by
  obtain ⟨raw, hpiece, _⟩ := h.spelling
  rw [hpiece.slice_eq, lastPart?] at hp
  obtain ⟨part, hpart, rfl⟩ := Option.map_eq_some_iff.mp hp
  obtain ⟨hlast, hnonempty⟩ := Option.filter_eq_some_iff.mp hpart
  obtain ⟨whole, _, rfl⟩ := List.mem_map.mp (List.mem_of_getLast? hlast)
  have hstop := innerSpan_stop_le raw whole
  simp only [Span.isEmpty, Bool.not_eq_true', decide_eq_false_iff_not] at hnonempty
  rw [hpiece.stop_eq]
  simp only
  omega

theorem NameIn.extent_ne {line here here' p p' : Span}
    (h : NameIn (.ofText uri cs scopes) line here) (hp : here.start ≤ p.start ∧ p.start < here.stop)
    (hp' : here'.start ≤ p'.start ∧ p'.start < here'.stop)
    (hapart : here.stop ≤ here'.start ∨ here'.stop ≤ here.start) : extent cs p ≠ extent cs p' := by
  obtain ⟨raw, hpiece, _⟩ := h.spelling
  rcases hapart with hapart | hapart
  · exact Text.extent_ne hpiece.boundary_stop hp.2 (Nat.le_trans hapart hp'.1)
  · exact (Text.extent_ne hpiece.boundary_start (Nat.lt_of_lt_of_le hp'.2 hapart) hp.1).symm

/-! ### The lines of a text -/

theorem masked_line {l : Text.Line} (hl : l ∈ lines cs) : ∃ before line after,
    (Source.ofText uri cs scopes).masked = before ++ (line ++ after) ∧
      l.span = ⟨size before, size before + size line⟩ :=
  mask_line (fun r => r == .comment || r == .literal) hl

theorem nameIn_of_mem_bareWords {l : Text.Line} (hl : l ∈ lines cs) {here : Span}
    (h : here ∈ bareWords (.ofText uri cs scopes) l.span) :
    NameIn (.ofText uri cs scopes) l.span here := by
  obtain ⟨before, line, after, hmasked, hspan⟩ := masked_line hl
  rw [hspan] at h ⊢
  exact nameIn_of_mem_words hmasked (List.mem_of_mem_filter h)

theorem nameIn_of_mem_claimedFirst {l : Text.Line} (hl : l ∈ lines cs) {here : Span}
    (h : here ∈ claimedFirst (.ofText uri cs scopes) l.span) :
    NameIn (.ofText uri cs scopes) l.span here := by
  obtain ⟨before, line, after, hmasked, hspan⟩ := masked_line hl
  rw [hspan] at h ⊢
  rcases List.mem_append.mp h with h | h
  · exact nameIn_of_mem_tableNames hmasked h
  · exact nameIn_of_mem_callNames hmasked h

theorem nameIn_of_mem_qualified {l : Text.Line} (hl : l ∈ lines cs) {claimed : List Span} {here : Span}
    (h : here ∈ (qualified (.ofText uri cs scopes) claimed l.span).claimed) :
    NameIn (.ofText uri cs scopes) l.span here := by
  obtain ⟨before, line, after, hmasked, hspan⟩ := masked_line hl
  rw [hspan] at h ⊢
  obtain ⟨f, hf, rfl⟩ := List.mem_map.mp ((claimQualified_sublist _ _ _).subset h)
  rw [hmasked, slice_append] at hf
  exact nameIn_of_find_qualified hmasked hf

theorem nameIn_of_mem_claimedIn {l : Text.Line} (hl : l ∈ lines cs) {here : Span}
    (h : here ∈ claimedIn (.ofText uri cs scopes) l.span) :
    NameIn (.ofText uri cs scopes) l.span here := by
  rcases List.mem_append.mp h with h | h
  · exact nameIn_of_mem_claimedFirst hl h
  · exact nameIn_of_mem_qualified hl h

theorem bareWords_ascending {l : Text.Line} (hl : l ∈ lines cs) :
    (bareWords (.ofText uri cs scopes) l.span).Pairwise fun here next => here.stop ≤ next.start := by
  obtain ⟨before, line, after, hmasked, hspan⟩ := masked_line hl
  rw [hspan]
  exact (words_ascending hmasked).filter _

def textWords (s : Source) : List Span := (lines s.chars).flatMap fun l => bareWords s l.span

theorem textWords_ascending : (textWords (.ofText uri cs scopes)).Pairwise
    fun here next => here.stop ≤ next.start := by
  rw [textWords, List.pairwise_flatMap]
  constructor
  · exact fun l hl => bareWords_ascending hl
  · refine (linesFrom_ascending 0 cs).imp_of_mem ?_
    intro l l' hl hl' hlt here hhere here' hhere'
    have hstop := (nameIn_of_mem_bareWords hl hhere).before_stop
    have hstart := (nameIn_of_mem_bareWords hl' hhere').after_start
    have hline : l'.span.start = l'.start := rfl
    omega

theorem NameIn.apart_of_ne {l l' : Text.Line} (hl : l ∈ lines cs) (hl' : l' ∈ lines cs) (hne : l ≠ l')
    {s : Source} {here here' : Span} (h : NameIn s l.span here) (h' : NameIn s l'.span here') :
    here.stop ≤ here'.start ∨ here'.stop ≤ here.start := by
  have hsymm : Std.Symm fun l l' : Text.Line => l.span.stop < l'.start ∨ l'.span.stop < l.start :=
    ⟨fun _ _ => Or.symm⟩
  have hlines : (lines cs).Pairwise fun l l' => l.span.stop < l'.start ∨ l'.span.stop < l.start :=
    (linesFrom_ascending 0 cs).imp Or.inl
  have horder := hlines.forall hl hl' hne
  have hstart : ∀ l : Text.Line, l.span.start = l.start := fun _ => rfl
  have hbounds := h.after_start
  have hbounds' := h'.after_start
  have hstop := h.before_stop
  have hstop' := h'.before_stop
  rw [hstart] at hbounds hbounds'
  omega

/-- What the other readings claim anywhere shares no byte with a bare word. -/
theorem bareWord_apart {l l' : Text.Line} (hl : l ∈ lines cs) (hl' : l' ∈ lines cs) {here claimed : Span}
    (hhere : here ∈ bareWords (.ofText uri cs scopes) l.span)
    (hclaimed : claimed ∈ claimedIn (.ofText uri cs scopes) l'.span) :
    here.stop ≤ claimed.start ∨ claimed.stop ≤ here.start := by
  by_cases hsame : l = l'
  · subst hsame
    have hfree : overlaps (claimedIn (.ofText uri cs scopes) l.span) here = false := by
      have hcolumn := (List.mem_filter.mp hhere).2
      simp only [mayBeColumn, Bool.and_eq_true, Bool.not_eq_true'] at hcolumn
      exact hcolumn.1.1.1.1.1.2
    have hno := List.any_eq_false.mp hfree claimed hclaimed
    simp only [Bool.and_eq_true, decide_eq_true_eq] at hno
    omega
  · exact (nameIn_of_mem_bareWords hl hhere).apart_of_ne hl hl' hsame
      (nameIn_of_mem_claimedIn hl' hclaimed)

/-! ### Emissions in names -/

def Emission.place : Emission → Extent
  | .reference r => r.place
  | .ambiguity a => a.place

/-- An emission stands in a name: its place starts there. -/
def StandsIn (s : Source) (here : Span) (e : Emission) : Prop :=
  ∃ p, e.place = extent s.chars p ∧ here.start ≤ p.start ∧ p.start < here.stop

variable {catalog : Catalog} {line here here' : Span} {e e' : Emission}

theorem NameIn.place_ne (h : NameIn (.ofText uri cs scopes) line here)
    (he : StandsIn (.ofText uri cs scopes) here e) (he' : StandsIn (.ofText uri cs scopes) here' e')
    (hapart : here.stop ≤ here'.start ∨ here'.stop ≤ here.start) : e.place ≠ e'.place := by
  obtain ⟨p, hp, hin⟩ := he
  obtain ⟨p', hp', hin'⟩ := he'
  rw [hp, hp']
  exact h.extent_ne hin hin' hapart

theorem NameIn.emission_ne (h : NameIn (.ofText uri cs scopes) line here)
    (he : StandsIn (.ofText uri cs scopes) here e) (he' : StandsIn (.ofText uri cs scopes) here' e')
    (hapart : here.stop ≤ here'.start ∨ here'.stop ≤ here.start) : e ≠ e' :=
  fun heq => h.place_ne he he' hapart (congrArg Emission.place heq)

theorem NameIn.standsIn_table (h : NameIn (.ofText uri cs scopes) line here)
    (he : tableEmission? (.ofText uri cs scopes) here = some e) :
    StandsIn (.ofText uri cs scopes) here e := by
  obtain ⟨name, p, hp, rfl⟩ := tableEmission?_eq_some he
  exact ⟨p, rfl, h.lastPart_start hp⟩

theorem NameIn.standsIn_call (h : NameIn (.ofText uri cs scopes) line here)
    (he : callEmission? (.ofText uri cs scopes) here = some e) :
    StandsIn (.ofText uri cs scopes) here e := by
  obtain ⟨name, p, hp, rfl⟩ := callEmission?_eq_some he
  exact ⟨p, rfl, h.lastPart_start hp⟩

theorem NameIn.standsIn_qualified (h : NameIn (.ofText uri cs scopes) line here)
    (he : qualifiedEmission? (.ofText uri cs scopes) here = some e) :
    StandsIn (.ofText uri cs scopes) here e := by
  obtain ⟨name, last, hlast, rfl⟩ := qualifiedEmission?_eq_some he
  have hspan := h.bareSpan_start
  rw [bareSpan, hlast] at hspan
  exact ⟨_, rfl, hspan⟩

theorem NameIn.standsIn_bare (h : NameIn (.ofText uri cs scopes) line here)
    (he : e ∈ bareEmissions (.ofText uri cs scopes) catalog here) :
    StandsIn (.ofText uri cs scopes) here e := by
  refine ⟨bareSpan (.ofText uri cs scopes) here, ?_, h.bareSpan_start⟩
  cases e with
  | reference r =>
    obtain ⟨name, heq⟩ := reference_of_mem_bareEmissions he
    cases heq
    rfl
  | ambiguity a =>
    rcases bareEmissions_cases (.ofText uri cs scopes) catalog here with
      ⟨column, tables, _, heq⟩ | ⟨b, hundecided, heq⟩
    · rw [heq] at he
      cases ambiguity?_bareReferences he
    · rw [heq, List.mem_append, List.mem_singleton] at he
      rcases he with he | he
      · cases ambiguity?_bareReferences he
      · cases he
        exact hundecided.place

end

end SqlAtlas.Usage
