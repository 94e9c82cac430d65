import Mathlib.Data.List.TakeWhile
import Mathlib.Tactic.Tauto
import SqlAtlas.Pattern
import SqlAtlas.Proofs.Text.Mask
import SqlAtlas.Proofs.Text.Piece

/-!
# What patterns take

An identifier, and a dotted name, is a piece of the text that starts and ends with a solid
character: neither a blank nor a dot. Finds follow one another without sharing a character.
-/

namespace SqlAtlas.Pattern

set_option autoImplicit false

open Text

def isSolid (c : Char) : Bool := !isAsciiBlank c && c != '.'

structure Solid (cs : List Char) : Prop where
  first : ∃ c, cs.head? = some c ∧ isSolid c = true
  last : ∃ c, cs.getLast? = some c ∧ isSolid c = true

theorem Solid.ne_nil {cs : List Char} (h : Solid cs) : cs ≠ [] := by
  rintro rfl
  obtain ⟨c, hc, _⟩ := h.first
  cases hc

theorem solid_of_forall {cs : List Char} (hne : cs ≠ []) (h : ∀ c ∈ cs, isSolid c = true) : Solid cs := by
  obtain ⟨c, rest, rfl⟩ := List.exists_cons_of_ne_nil hne
  refine ⟨⟨c, rfl, h c List.mem_cons_self⟩, ?_⟩
  exact ⟨_, List.getLast?_eq_some_getLast hne, h _ (List.getLast_mem hne)⟩

theorem Solid.append {as bs cs : List Char} (ha : Solid as) (hc : Solid cs) : Solid (as ++ bs ++ cs) := by
  obtain ⟨a, hfirst, ha'⟩ := ha.first
  obtain ⟨c, hlast, hc'⟩ := hc.last
  refine ⟨⟨a, ?_, ha'⟩, ⟨c, ?_, hc'⟩⟩
  · simp [hfirst]
  · simp [hlast]

theorem ne_space_of_blank {blank : Char → Bool} (hspace : blank ' ' = true) {c : Char}
    (h : blank c = false) : c ≠ ' ' := by
  rintro rfl
  rw [hspace] at h
  cases h

theorem unmasked_of_trimmed {cs word : List Char} {here : Span} (htrimmed : Trimmed word)
    (h : IsPiece (maskCommentsAndLiterals cs) here word) :
    ∃ raw, IsPiece cs here raw ∧ raw.getLast? = word.getLast? := by
  obtain ⟨first, hfirst, hfirst'⟩ := htrimmed.first
  obtain ⟨last, hlast, hlast'⟩ := htrimmed.last
  obtain ⟨raw, hraw, _, hend⟩ := mask_piece h hfirst (ne_space_of_blank rfl hfirst') hlast
    (ne_space_of_blank rfl hlast')
  exact ⟨raw, hraw, hend.trans hlast.symm⟩

theorem Solid.trimmed {cs : List Char} (h : Solid cs) : Trimmed cs := by
  have hblank : ∀ {c}, isSolid c = true → isAsciiBlank c = false := by
    intro c hc
    rw [isSolid, Bool.and_eq_true, Bool.not_eq_true'] at hc
    exact hc.1
  obtain ⟨first, hfirst, hfirst'⟩ := h.first
  obtain ⟨last, hlast, hlast'⟩ := h.last
  exact ⟨⟨first, hfirst, hblank hfirst'⟩, last, hlast, hblank hlast'⟩

theorem Solid.unmasked {cs word : List Char} {here : Span} (hsolid : Solid word)
    (h : IsPiece (maskCommentsAndLiterals cs) here word) :
    ∃ raw, IsPiece cs here raw ∧ ∃ c, raw.getLast? = some c ∧ isSolid c = true := by
  obtain ⟨raw, hraw, hend⟩ := unmasked_of_trimmed hsolid.trimmed h
  refine ⟨raw, hraw, ?_⟩
  rw [hend]
  exact hsolid.last

theorem isSolid_of_continuesIdentifier {folded : Bool} {c : Char}
    (h : continuesIdentifier folded c = true) : isSolid c = true := by
  by_contra hno
  have hcases : c = ' ' ∨ c = '\t' ∨ c = '\n' ∨ c = '\x0c' ∨ c = '\r' ∨ c = '.' := by
    simp only [isSolid, isAsciiBlank, Bool.and_eq_true, Bool.not_eq_true', Bool.or_eq_false_iff,
      bne_iff_ne, beq_eq_false_iff_ne, ne_eq] at hno
    tauto
  rcases hcases with rfl | rfl | rfl | rfl | rfl | rfl <;> revert h <;> cases folded <;> decide

/-! ### Identifiers and dotted names -/

theorem delimitedRest?_eq_some {close : Char} {cs : List Char} {n : Nat}
    (h : delimitedRest? close cs = some n) :
    ∃ inside rest, cs = inside ++ close :: rest ∧ n = inside.length + 1 := by
  rw [delimitedRest?] at h
  split at h
  · rename_i hclose
    cases h
    rw [beq_iff_eq, List.head?_eq_some_iff] at hclose
    obtain ⟨rest, hrest⟩ := hclose
    refine ⟨_, rest, ?_, rfl⟩
    rw [← hrest, List.prefix_iff_eq_append.mp (List.takeWhile_prefix _)]
  · cases h

theorem identifier?_eq_some {folded : Bool} {cs : List Char} {n : Nat}
    (h : identifier? folded cs = some n) : ∃ word rest, cs = word ++ rest ∧ n = word.length ∧ Solid word := by
  have hdelimited : ∀ {mark close : Char} {rest : List Char}, isSolid mark = true →
      isSolid close = true → (delimitedRest? close rest).map (· + 1) = some n →
      ∃ word rest', mark :: rest = word ++ rest' ∧ n = word.length ∧ Solid word := by
    intro mark close rest hmark hclose hmap
    obtain ⟨m, hm, rfl⟩ := Option.map_eq_some_iff.mp hmap
    obtain ⟨inside, rest', rfl, rfl⟩ := delimitedRest?_eq_some hm
    refine ⟨mark :: (inside ++ [close]), rest', by simp, by simp, ⟨mark, rfl, hmark⟩, close, ?_, hclose⟩
    rw [← List.cons_append, List.getLast?_concat]
  cases cs with
  | nil => cases h
  | cons c rest =>
    rw [identifier?] at h
    split at h
    · rename_i hc
      rw [beq_iff_eq.mp hc]
      exact hdelimited (by decide) (by decide) h
    · split at h
      · rename_i hc
        rw [beq_iff_eq.mp hc]
        exact hdelimited (by decide) (by decide) h
      · split at h
        · rename_i hstart
          cases h
          refine ⟨c :: rest.takeWhile (continuesIdentifier folded),
            rest.dropWhile (continuesIdentifier folded), ?_, rfl, ?_⟩
          · rw [List.cons_append, List.takeWhile_append_dropWhile]
          · refine solid_of_forall (List.cons_ne_nil _ _) fun d hd => ?_
            have hcontinues : continuesIdentifier folded d = true := by
              rcases List.mem_cons.mp hd with rfl | hd
              · simp [continuesIdentifier, hstart]
              · exact List.mem_takeWhile_imp hd
            exact isSolid_of_continuesIdentifier hcontinues
        · cases h

/-- What stands after the first characters of a text, seen from its front. -/
theorem eq_of_drop {cs word rest : List Char} {k : Nat} (h : cs.drop k = word ++ rest)
    (hne : word ≠ []) : cs = cs.take k ++ (word ++ rest) ∧ (cs.take k).length = k := by
  refine ⟨by rw [← h, List.take_append_drop], ?_⟩
  have hlength := congrArg List.length h
  have hpos := List.length_pos_iff.mpr hne
  rw [List.length_drop, List.length_append] at hlength
  rw [List.length_take]
  omega

theorem dotPart?_eq_some {folded : Bool} {cs : List Char} {n : Nat}
    (h : dotPart? folded cs = some n) :
    ∃ lead word rest, cs = lead ++ (word ++ rest) ∧ n = lead.length + word.length ∧ Solid word := by
  simp only [dotPart?, chain?, Option.bind_eq_bind, Option.bind_eq_some_iff, Option.pure_def,
    Option.some.injEq] at h
  obtain ⟨a, _, _, ⟨b, _, _, ⟨c, _, _, ⟨d, hd, _, rfl, rfl⟩, rfl⟩, rfl⟩, rfl⟩ := h
  rw [List.drop_drop, List.drop_drop] at hd
  obtain ⟨word, rest, hdrop, rfl, hsolid⟩ := identifier?_eq_some hd
  obtain ⟨hcs, hlength⟩ := eq_of_drop hdrop hsolid.ne_nil
  exact ⟨_, word, rest, hcs, by rw [hlength]; omega, hsolid⟩

theorem dotParts_cases (folded : Bool) (limit : Nat) (cs : List Char) :
    dotParts folded limit cs = 0 ∨ ∃ lead word rest, cs = lead ++ (word ++ rest) ∧
      dotParts folded limit cs = lead.length + word.length ∧ Solid word := by
  induction limit generalizing cs with
  | zero => exact .inl rfl
  | succ limit ih =>
    rw [dotParts]
    cases hpart : dotPart? folded cs with
    | none => exact .inl rfl
    | some n =>
      right
      obtain ⟨lead, word, rest, rfl, rfl, hsolid⟩ := dotPart?_eq_some hpart
      have hdrop : (lead ++ (word ++ rest)).drop (lead.length + word.length) = rest := by
        rw [← List.append_assoc, ← List.length_append, List.drop_left]
      simp only [hdrop]
      rcases ih rest with hnone | ⟨lead', word', rest', hrest, hn, hsolid'⟩
      · exact ⟨lead, word, rest, rfl, by rw [hnone, Nat.add_zero], hsolid⟩
      · refine ⟨lead ++ (word ++ lead'), word', rest', ?_, ?_, hsolid'⟩
        · rw [hrest]
          simp only [List.append_assoc]
        · rw [hn]
          simp only [List.length_append]
          omega

theorem dottedName?_eq_some {folded : Bool} {limit : Nat} {cs : List Char} {n : Nat}
    (h : dottedName? folded limit cs = some n) :
    ∃ word rest, cs = word ++ rest ∧ n = word.length ∧ Solid word := by
  rw [dottedName?] at h
  obtain ⟨m, hm, rfl⟩ := Option.map_eq_some_iff.mp h
  obtain ⟨word, rest, rfl, rfl, hsolid⟩ := identifier?_eq_some hm
  rw [List.drop_left]
  rcases dotParts_cases folded limit rest with hnone | ⟨lead, word', rest', hrest, hn, hsolid'⟩
  · exact ⟨word, rest, rfl, by rw [hnone, Nat.add_zero], hsolid⟩
  · refine ⟨word ++ lead ++ word', rest', ?_, ?_, hsolid.append hsolid'⟩
    · rw [hrest]
      simp only [List.append_assoc]
    · rw [hn]
      simp only [List.length_append]
      omega

theorem word?_eq_some {word cs : List Char} {n : Nat} (h : word? word cs = some n) :
    ∃ front rest, cs = front ++ rest ∧ n = front.length ∧ front.length = word.length ∧
      ∀ c ∈ front, ∃ u ∈ word, isCaseOf u c = true := by
  induction word generalizing cs n with
  | nil =>
    rw [word?] at h
    cases h
    exact ⟨[], cs, rfl, rfl, rfl, nofun⟩
  | cons u us ih =>
    cases cs with
    | nil => cases h
    | cons c cs =>
      rw [word?] at h
      split at h
      · rename_i hc
        obtain ⟨m, hm, rfl⟩ := Option.map_eq_some_iff.mp h
        obtain ⟨front, rest, rfl, rfl, hlength, hfront⟩ := ih hm
        refine ⟨c :: front, rest, rfl, rfl, congrArg (· + 1) hlength, ?_⟩
        rw [List.forall_mem_cons]
        refine ⟨⟨u, List.mem_cons_self, hc⟩, fun d hd => ?_⟩
        obtain ⟨v, hv, hcase⟩ := hfront d hd
        exact ⟨v, List.mem_cons_of_mem u hv, hcase⟩
      · cases h

/-! ### Finds -/

section

variable {α : Type} {recognise : Option Char → List Char → Option (α × Nat)}

theorem findAllFrom_piece {prev : Option Char} {offset : Nat} {cs : List Char} {f : Found α}
    (h : f ∈ findAllFrom recognise prev offset cs) : ∃ before rest prev' more,
      cs = before ++ rest ∧ f.offset = offset + size before ∧
        recognise prev' rest = some (f.value, more) := by
  fun_induction findAllFrom recognise prev offset cs with
  | case1 => cases h
  | case2 prev offset c cs a more hfound taken ih =>
    rcases List.mem_cons.mp h with rfl | h
    · exact ⟨[], c :: cs, prev, more, rfl, rfl, hfound⟩
    · obtain ⟨before, rest, prev', more', hcs, hoffset, hf⟩ := ih h
      refine ⟨taken ++ before, rest, prev', more', ?_, ?_, hf⟩
      · rw [List.append_assoc, ← hcs, List.cons_append, List.take_append_drop]
      · rw [hoffset, size_append, Nat.add_assoc]
  | case3 prev offset c cs hnone ih =>
    obtain ⟨before, rest, prev', more, hcs, hoffset, hf⟩ := ih h
    exact ⟨c :: before, rest, prev', more, by rw [hcs]; rfl,
      by rw [hoffset, size_cons, Nat.add_assoc], hf⟩

theorem size_take_le {n m : Nat} (h : n ≤ m) (cs : List Char) : size (cs.take n) ≤ size (cs.take m) := by
  obtain ⟨k, rfl⟩ := Nat.exists_eq_add_of_le h
  rw [List.take_add, size_append]
  exact Nat.le_add_right _ _

/-- Finds do not share a character: each ends before the next one starts, if a find is not longer
than what it takes. -/
theorem findAllFrom_ascending (length : α → Nat)
    (hlength : ∀ {prev cs a more}, recognise prev cs = some (a, more) → length a ≤ more + 1)
    (prev : Option Char) (offset : Nat) (cs : List Char) :
    (findAllFrom recognise prev offset cs).Pairwise fun f g => ∀ before rest,
      cs = before ++ rest → f.offset = offset + size before →
        f.offset + size (rest.take (length f.value)) ≤ g.offset := by
  -- a find behind some characters, seen from before them
  have hlater : ∀ {prev offset cs} (taken left : List Char), cs = taken ++ left →
      ∀ {f g : Found α}, f ∈ findAllFrom recognise prev (offset + size taken) left →
      (∀ before rest, left = before ++ rest → f.offset = offset + size taken + size before →
        f.offset + size (rest.take (length f.value)) ≤ g.offset) →
      ∀ before rest, cs = before ++ rest → f.offset = offset + size before →
        f.offset + size (rest.take (length f.value)) ≤ g.offset := by
    intro prev offset cs taken left hcs f g hf hfg before rest hsplit hoffset
    obtain ⟨before', _, _, _, _, hf, _⟩ := findAllFrom_piece hf
    obtain ⟨m, rfl, hleft⟩ := cut_of_size_le (hcs.symm.trans hsplit) (by omega)
    refine hfg m rest hleft ?_
    rw [hoffset, size_append, Nat.add_assoc]
  fun_induction findAllFrom recognise prev offset cs with
  | case1 => exact List.Pairwise.nil
  | case2 prev offset c cs a more hfound taken ih =>
    refine List.pairwise_cons.mpr ⟨?_, ih.imp_of_mem ?_⟩
    · intro g hg before rest hcs hoffset
      obtain ⟨before', _, _, _, _, hg, _⟩ := findAllFrom_piece hg
      simp only at hoffset
      obtain rfl := eq_nil_of_size (show size before = 0 by omega)
      rw [List.nil_append] at hcs
      have htaken : size (rest.take (length a)) ≤ size taken := by
        rw [← hcs]
        exact size_take_le (hlength hfound) (c :: cs)
      simp only
      omega
    · intro f g hf _ hfg before rest hcs hoffset
      exact hlater taken (cs.drop more) (by rw [List.cons_append, List.take_append_drop])
        hf hfg before rest hcs hoffset
  | case3 prev offset c cs hnone ih =>
    refine ih.imp_of_mem fun {f g} hf _ hfg before rest hcs hoffset => ?_
    exact hlater [c] cs rfl (by rwa [size_cons, size_nil, Nat.add_zero])
      (by rwa [size_cons, size_nil, Nat.add_zero]) before rest hcs hoffset

end

end SqlAtlas.Pattern
