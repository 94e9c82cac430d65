import Mathlib.Data.List.Forall2
import SqlAtlas.Proofs.Text.Reread
import SqlAtlas.Proofs.Text.Utf8
import SqlAtlas.Text.Byte

/-!
# Scans of bytes and of characters

Both scans of the bytes of a text go through the regions that its characters stand in, each by its own
table. So masking the bytes gives the bytes of the masked text, and the bytes found in plain code are
those of the characters found there.
-/

namespace SqlAtlas.Text

set_option autoImplicit false

namespace Region

/-- A region in front of a character that is not the second one of a mark. -/
def Ready (r : Region) : Prop := ∀ role after, r ≠ .second role after

def state : Region → Byte.State
  | .code => .code
  | .lineComment => .lineComment
  | .blockComment outer => .blockComment (outer + 1)
  | .literal => .literal
  | .quotedName => .quotedName
  | .bracketedName => .bracketedName
  | .second _ after => after.state

def role : Region → Role
  | .code => .code
  | .lineComment | .blockComment _ => .comment
  | .literal => .literal
  | .quotedName | .bracketedName => .name
  | .second role _ => role

variable {r after : Region} {role : Role} {close c : Char} {next : Option Char}

theorem ready_or_second (r : Region) : r.Ready ∨ ∃ role after, r = .second role after := by
  cases r with
  | second role after => exact .inr ⟨role, after, rfl⟩
  | _ => exact .inl nofun

theorem Delimited.role_eq (h : Delimited r role close) : r.role = role := by
  cases h <;> rfl

theorem Delimited.ready (h : Delimited r role close) : r.Ready := by
  rintro role' after rfl
  cases h

theorem Delimited.isAscii (h : Delimited r role close) : isAscii close := by
  cases h <;> rfl

theorem opened?_eq_none_iff : opened? c = none ↔ c ≠ '\'' ∧ c ≠ '"' ∧ c ≠ '[' := by
  simp only [opened?, beq_iff_eq]
  grind

theorem opened?_eq_some_iff : opened? c = some after ↔ c = '\'' ∧ after = .literal ∨
    c = '"' ∧ after = .quotedName ∨ c = '[' ∧ after = .bracketedName := by
  simp only [opened?, beq_iff_eq]
  grind

theorem isAscii_of_opened? (h : opened? c = some after) : isAscii c := by
  rcases opened?_eq_some_iff.mp h with ⟨rfl, -⟩ | ⟨rfl, -⟩ | ⟨rfl, -⟩ <;> rfl

theorem Steps.of_not_isAscii (h : Steps r c next role after) (hr : r.Ready)
    (hc : Text.isAscii c = false) : role = r.role ∧ after = r := by
  cases h with
  | opens _ _ hinside =>
    rw [isAscii_of_opened? hinside] at hc
    cases hc
  | code => exact ⟨rfl, rfl⟩
  | line => exact ⟨rfl, rfl⟩
  | block => exact ⟨rfl, rfl⟩
  | inside _ hdelimited _ => exact ⟨hdelimited.role_eq.symm, rfl⟩
  | doubled hdelimited =>
    rw [hdelimited.isAscii] at hc
    cases hc
  | closes hdelimited _ =>
    rw [hdelimited.isAscii] at hc
    cases hc
  | second => exact absurd rfl (hr _ _)
  | _ => cases hc

theorem Steps.pair {role' : Role} (h : Steps r c next role (.second role' after)) (hr : r.Ready) :
    role' = role ∧ after.Ready ∧ ∃ d, next = some d ∧ Text.isAscii d := by
  cases h with
  | opensLine => exact ⟨rfl, nofun, _, rfl, rfl⟩
  | opensBlock => exact ⟨rfl, nofun, _, rfl, rfl⟩
  | opens _ hdelimited _ => exact absurd rfl (hdelimited.ready _ _)
  | nests => exact ⟨rfl, nofun, _, rfl, rfl⟩
  | unnests => exact ⟨rfl, nofun, _, rfl, rfl⟩
  | blockEnds => exact ⟨rfl, nofun, _, rfl, rfl⟩
  | inside _ hdelimited _ => exact absurd rfl (hdelimited.ready _ _)
  | doubled hdelimited => exact ⟨rfl, hdelimited.ready, _, rfl, hdelimited.isAscii⟩
  | second => exact absurd rfl (hr _ _)

end Region

namespace Byte

/-- A scan of bytes takes the turns of the scan of characters. What stands alone need only come out the
same (`emit`); the byte that ends a line is blanked by no mark. -/
structure Follows {β : Type} (turn : State → UInt8 → Option UInt8 → Turn) (marks : Role → Bool)
    (emit : UInt8 × Bool → β) : Prop where
  single {r after : Region} {c : Char} {next : Option Char} {role : Role} :
    Region.Steps r c next role after → r.Ready → after.Ready → isAscii c →
    let t := turn r.state (lead c) (next.map lead)
    t.state = after.state ∧ t.pair = false ∧ emit (lead c, t.mark) = emit (lead c, marks role)
  pair {r after : Region} {c : Char} {next : Option Char} {role : Role} :
    Region.Steps r c next role (.second role after) → r.Ready →
    turn r.state (lead c) (next.map lead) = ⟨after.state, true, marks role⟩
  beyond {r : Region} {b : UInt8} (next : Option UInt8) : r.Ready → 128 ≤ b →
    turn r.state b next = ⟨r.state, false, marks r.role⟩

def encoded (marks : Role → Bool) (p : Char × Role) : List (UInt8 × Bool) :=
  (String.utf8EncodeChar p.1).map (·, marks p.2)

section

variable {turn : State → UInt8 → Option UInt8 → Turn} {s s' : State} {b c : UInt8} {mark : Bool}
  {bytes : List UInt8}

theorem scan_single (h : (turn s b bytes.head?).pair = false) : scan turn s (b :: bytes) =
    (b, (turn s b bytes.head?).mark) :: scan turn (turn s b bytes.head?).state bytes := by
  cases bytes with
  | nil => rfl
  | cons c bytes =>
    rw [List.head?_cons] at h
    simp only [scan, h, Bool.false_eq_true, if_false, List.head?_cons]

theorem scan_pair (h : turn s b (some c) = ⟨s', true, mark⟩) :
    scan turn s (b :: c :: bytes) = (b, mark) :: (c, mark) :: scan turn s' bytes := by
  simp only [scan, h, if_true]

end

section

variable {β : Type} {turn : State → UInt8 → Option UInt8 → Turn} {marks : Role → Bool}
  {emit : UInt8 × Bool → β} (h : Follows turn marks emit)

include h

theorem Follows.scan_beyond {r : Region} (hr : r.Ready) {bs : List UInt8} (hbs : ∀ b ∈ bs, 128 ≤ b)
    (bytes : List UInt8) : scan turn r.state (bs ++ bytes) =
      bs.map (·, marks r.role) ++ scan turn r.state bytes := by
  induction bs with
  | nil => rfl
  | cons b bs ih =>
    have hturn := h.beyond (bs ++ bytes).head? hr (hbs b List.mem_cons_self)
    rw [List.cons_append, scan_single (by rw [hturn]), hturn,
      ih fun b hb => hbs b (List.mem_cons_of_mem _ hb)]
    rfl

/-- A scan that takes the turns of the scan of characters marks the bytes of a character by its role. -/
theorem Follows.scan_utf8Bytes {r : Region} (hr : r.Ready) (cs : List Char) :
    (scan turn r.state (utf8Bytes cs)).map emit =
      ((rolesFrom r cs).flatMap (encoded marks)).map emit := by
  match cs with
  | [] => rfl
  | c :: cs =>
    have hstep := r.steps_step c cs.head?
    generalize (r.step c cs.head?).1 = role, (r.step c cs.head?).2 = after at hstep
    rw [hstep.rolesFrom_cons, utf8Bytes_cons, List.flatMap_cons, List.map_append]
    cases hc : isAscii c with
    | false =>
      obtain ⟨rfl, rfl⟩ := hstep.of_not_isAscii hr hc
      rw [h.scan_beyond hr fun b => byte_ge_of_not_isAscii hc, List.map_append,
        scan_utf8Bytes hr cs]
      rfl
    | true =>
      have hbytes : encoded marks (c, role) = [(lead c, marks role)] := by
        rw [encoded, encode_of_isAscii hc, lead_of_isAscii hc]
        rfl
      rw [hbytes, encode_of_isAscii hc, ← lead_of_isAscii hc, List.singleton_append]
      rcases after.ready_or_second with hready | ⟨role', after, rfl⟩
      · obtain ⟨hstate, halone, hemit⟩ := h.single hstep hr hready hc
        rw [← head?_utf8Bytes] at hstate halone hemit
        rw [scan_single halone, List.map_cons, hstate, scan_utf8Bytes hready cs, hemit]
        rfl
      · -- both characters of the mark are read in one turn
        obtain ⟨rfl, hready, d, hd, hascii⟩ := hstep.pair hr
        obtain ⟨ds, rfl⟩ := List.head?_eq_some_iff.mp hd
        have hturn := h.pair hstep hr
        have hsecond := Region.Steps.second role' after d ds.head?
        rw [hd, Option.map_some] at hturn
        rw [utf8Bytes_cons, encode_of_isAscii hascii, ← lead_of_isAscii hascii, List.singleton_append,
          scan_pair hturn, List.map_cons, List.map_cons, scan_utf8Bytes hready ds,
          hsecond.rolesFrom_cons, List.flatMap_cons, List.map_append, encoded,
          encode_of_isAscii hascii, ← lead_of_isAscii hascii]
        rfl
termination_by cs.length

end

/-! ### The two tables -/

theorem ne_of_ge {b : UInt8} (hb : 128 ≤ b) {a : Char} (ha : isAscii a) : b ≠ a.toUInt8 := by
  rintro rfl
  rw [UInt8.le_iff_toNat_le, toNat_toUInt8_of_isAscii ha] at hb
  rw [isAscii_iff] at ha
  exact absurd (Nat.le_trans hb ha) (by decide)

theorem follows_maskTurn (literals : Bool) :
    Follows (maskTurn literals) (hides literals) shown where
  single {r after c next role} hstep hr hready hc := by
    cases hstep with
    | opens _ _ hinside =>
      rcases Region.opened?_eq_some_iff.mp hinside with ⟨rfl, rfl⟩ | ⟨rfl, rfl⟩ | ⟨rfl, rfl⟩ <;>
        simp (disch := decide) [Region.state, maskTurn, lead_eq_iff]
    | code hline hblock hnone =>
      obtain ⟨hquote, hdouble, hbracket⟩ := Region.opened?_eq_none_iff.mp hnone
      simp (disch := decide) [Region.state, maskTurn, lead_eq_iff, hline, hblock, hquote, hdouble,
        hbracket]
    | line _ hend => simp (disch := decide) [Region.state, maskTurn, lead_eq_iff, hend]
    | lineEnds => simp (disch := decide) [Region.state, maskTurn, lead_eq_iff, shown, blanked]
    | block _ hcloses hopens =>
      simp (disch := decide) [Region.state, maskTurn, lead_eq_iff, hcloses, hopens]
    | inside _ hdelimited hc =>
      cases hdelimited <;> simp (disch := decide) [Region.state, maskTurn, lead_eq_iff, hc]
    | closes hdelimited hnext =>
      cases hdelimited <;> simp (disch := decide) [Region.state, maskTurn, lead_eq_iff, hnext]
    | second => exact absurd rfl (hr _ _)
    | _ => exact absurd rfl (hready _ _)
  pair hstep hr := by
    cases hstep with
    | opens _ hdelimited _ => exact absurd rfl (hdelimited.ready _ _)
    | inside _ hdelimited _ => exact absurd rfl (hdelimited.ready _ _)
    | doubled hdelimited =>
      cases hdelimited <;> simp (disch := decide) [Region.state, maskTurn, lead_eq_iff]
    | second => exact absurd rfl (hr _ _)
    | _ => simp (disch := decide) [Region.state, maskTurn, lead_eq_iff]
  beyond {r b} next hr hb := by
    cases r with
    | second role after => exact absurd rfl (hr role after)
    | _ => simp (disch := decide) [Region.state, Region.role, maskTurn, ne_of_ge hb]

theorem follows_codeTurn : Follows codeTurn (· == .code) id where
  single {r after c next role} hstep hr hready hc := by
    cases hstep with
    | opens _ _ hinside =>
      rcases Region.opened?_eq_some_iff.mp hinside with ⟨rfl, rfl⟩ | ⟨rfl, rfl⟩ | ⟨rfl, rfl⟩ <;>
        simp (disch := decide) [Region.state, codeTurn, lead_eq_iff]
    | code hline hblock hnone =>
      obtain ⟨hquote, hdouble, hbracket⟩ := Region.opened?_eq_none_iff.mp hnone
      simp (disch := decide) [Region.state, codeTurn, lead_eq_iff, hline, hblock, hquote, hdouble,
        hbracket]
    | line _ hend => simp (disch := decide) [Region.state, codeTurn, lead_eq_iff, hend]
    | lineEnds => simp (disch := decide) [Region.state, codeTurn, lead_eq_iff]
    | block _ hcloses hopens =>
      simp (disch := decide) [Region.state, codeTurn, lead_eq_iff, hcloses, hopens]
    | inside _ hdelimited hc =>
      cases hdelimited <;> simp (disch := decide) [Region.state, codeTurn, lead_eq_iff, hc]
    | closes hdelimited hnext =>
      cases hdelimited <;> simp (disch := decide) [Region.state, codeTurn, lead_eq_iff, hnext]
    | second => exact absurd rfl (hr _ _)
    | _ => exact absurd rfl (hready _ _)
  pair hstep hr := by
    cases hstep with
    | opens _ hdelimited _ => exact absurd rfl (hdelimited.ready _ _)
    | inside _ hdelimited _ => exact absurd rfl (hdelimited.ready _ _)
    | doubled hdelimited =>
      cases hdelimited <;> simp (disch := decide) [Region.state, codeTurn, lead_eq_iff]
    | second => exact absurd rfl (hr _ _)
    | _ => simp (disch := decide) [Region.state, codeTurn, lead_eq_iff]
  beyond {r b} next hr hb := by
    cases r with
    | second role after => exact absurd rfl (hr role after)
    | _ => simp (disch := decide) [Region.state, Region.role, codeTurn, ne_of_ge hb]

/-! ### Masked bytes -/

/-- What masking may do to a byte: leave it, or put a space for one that does not end a line. -/
def Covers (b b' : UInt8) : Prop :=
  b' = b ∨ b' = ' '.toUInt8 ∧ b ≠ '\n'.toUInt8 ∧ b ≠ '\r'.toUInt8

theorem eq_of_mem_encode {c a : Char} (ha : isAscii a) (h : a.toUInt8 ∈ String.utf8EncodeChar c) :
    c = a := by
  cases hc : isAscii c with
  | false => exact absurd rfl (ne_of_ge (byte_ge_of_not_isAscii hc h) ha)
  | true =>
    rw [encode_of_isAscii hc, List.mem_singleton, ← lead_of_isAscii hc] at h
    exact (lead_eq_iff ha).mp h.symm

theorem utf8Bytes_replicate_space (n : Nat) :
    utf8Bytes (List.replicate n ' ') = List.replicate n ' '.toUInt8 := by
  induction n with
  | zero => rfl
  | succ n ih => rw [List.replicate_succ, utf8Bytes_cons, ih, List.replicate_succ]; rfl

theorem blanked_eq_space {b : UInt8} (hline : b ≠ '\n'.toUInt8) (hreturn : b ≠ '\r'.toUInt8) :
    blanked b = ' '.toUInt8 := by
  simp [blanked, hline, hreturn]

theorem map_blanked_encode (c : Char) :
    (String.utf8EncodeChar c).map blanked = utf8Bytes (Text.blanked c) := by
  rw [Text.blanked]
  split
  · rename_i hc
    obtain rfl | rfl : c = '\n' ∨ c = '\r' := by simpa using hc
    · rfl
    · rfl
  · rename_i hc
    have hne : c ≠ '\n' ∧ c ≠ '\r' := by simpa using hc
    have hspaces : ∀ b ∈ String.utf8EncodeChar c, blanked b = ' '.toUInt8 := by
      intro b hb
      apply blanked_eq_space
      · rintro rfl
        exact hne.1 (eq_of_mem_encode rfl hb)
      · rintro rfl
        exact hne.2 (eq_of_mem_encode rfl hb)
    rw [List.map_congr_left hspaces, List.map_const', String.length_utf8EncodeChar,
      utf8Bytes_replicate_space]

theorem map_shown_encoded (literals : Bool) (p : Char × Role) :
    (encoded (hides literals) p).map shown = utf8Bytes (masked (hides literals) p) := by
  rw [encoded, List.map_map, masked]
  split
  · rename_i h
    rw [← map_blanked_encode]
    exact List.map_congr_left fun b _ => by simp only [Function.comp_apply, shown, h, if_true]
  · rename_i h
    rw [utf8Bytes_cons]
    simp [shown, h, Function.comp_def, utf8Bytes]

theorem mask_utf8Bytes (literals : Bool) (cs : List Char) :
    mask literals (utf8Bytes cs) = utf8Bytes (masking literals cs) := by
  have hscan := (follows_maskTurn literals).scan_utf8Bytes (r := .code) nofun cs
  rw [mask, ← Region.state, hscan, List.map_flatMap, ← mask_hides, mask_eq, utf8Bytes,
    List.flatMap_assoc]
  exact congrArg (List.flatMap · (roles cs)) (funext (map_shown_encoded literals))

theorem map_fst_scan (turn : State → UInt8 → Option UInt8 → Turn) (s : State) (bytes : List UInt8) :
    (scan turn s bytes).map (·.1) = bytes := by
  fun_induction scan turn s bytes with
  | case1 => rfl
  | case2 => rfl
  | case3 s b c rest t hpair ih => rw [List.map_cons, List.map_cons, ih]
  | case4 s b c rest t hpair ih => rw [List.map_cons, ih]

theorem length_scan (turn : State → UInt8 → Option UInt8 → Turn) (s : State) (bytes : List UInt8) :
    (scan turn s bytes).length = bytes.length := by
  rw [← List.length_map (fun p : UInt8 × Bool => p.1), map_fst_scan]

theorem covers_shown (p : UInt8 × Bool) : Covers p.1 (shown p) := by
  rw [shown]
  split
  · rw [blanked]
    split
    · exact .inl rfl
    · rename_i h
      exact .inr ⟨rfl, by simpa using h⟩
  · exact .inl rfl

theorem covers_mask (literals : Bool) (bytes : List UInt8) :
    List.Forall₂ Covers bytes (mask literals bytes) := by
  have hsame : List.Forall₂ Covers ((scan (maskTurn literals) .code bytes).map (·.1))
      ((scan (maskTurn literals) .code bytes).map shown) := by
    rw [List.forall₂_map_left_iff, List.forall₂_map_right_iff, List.forall₂_same]
    exact fun p _ => covers_shown p
  rwa [map_fst_scan] at hsame

end Byte

/-- Masking blanks bytes in place. Done byte by byte, it leaves the strict UTF-8 form of a text, and that
text is the masked one. Each byte stays or becomes a space, and no byte that ends a line is changed.
Masking once more hides what either mask hides: a mask changes nothing that it has masked, and the mask
of comments changes nothing, before or after, to what masks literals too. -/
theorem masking_in_place (literals : Bool) (cs : List Char) :
    decodeUtf8 (Byte.mask literals (utf8Bytes cs)) = some (masking literals cs) ∧
      (utf8Bytes (masking literals cs)).length = (utf8Bytes cs).length ∧
      List.Forall₂ Byte.Covers (utf8Bytes cs) (utf8Bytes (masking literals cs)) ∧
      ∀ again, masking again (masking literals cs) = masking (again || literals) cs := by
  have hcovers := Byte.covers_mask literals (utf8Bytes cs)
  rw [Byte.mask_utf8Bytes] at hcovers ⊢
  exact ⟨decodeUtf8_utf8Bytes _, hcovers.length_eq.symm, hcovers,
    fun again => masking_masking again literals cs⟩

end SqlAtlas.Text
