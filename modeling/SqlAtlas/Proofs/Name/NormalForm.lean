import SqlAtlas.Name
import SqlAtlas.Proofs.Text.Lower
import SqlAtlas.Proofs.Text.Piece

/-!
# Names in normal form

The parts of a normal form are trimmed and in lower case, a default schema is never in front of a
single part, and the parts are not all empty. Unwrapping takes delimiters off once, so that a part
may still have delimiters at its ends: a normal form is its own normal form exactly if no part has.
-/

namespace SqlAtlas

set_option autoImplicit false

open Text

/-! ### Trimming -/

structure Tight (blank : Char → Bool) (cs : List Char) : Prop where
  first : ∀ c, cs.head? = some c → blank c = false
  last : ∀ c, cs.getLast? = some c → blank c = false

theorem tight_iff (blank : Char → Bool) (cs : List Char) : Tight blank cs ↔
    cs.head?.all (fun c => !blank c) = true ∧ cs.getLast?.all (fun c => !blank c) = true := by
  simp only [Option.all_eq_true, Bool.not_eq_true']
  exact ⟨fun h => ⟨h.first, h.last⟩, fun h => ⟨h.1, h.2⟩⟩

instance (blank : Char → Bool) (cs : List Char) : Decidable (Tight blank cs) :=
  decidable_of_iff _ (tight_iff blank cs).symm

theorem trimBy_eq_self {blank : Char → Bool} {cs : List Char} (h : Tight blank cs) :
    trimBy blank cs = cs := by
  have hkeeps : ∀ {l : List Char}, (∀ c, l.head? = some c → blank c = false) →
      l.dropWhile blank = l := by
    intro l hl
    cases l with
    | nil => rfl
    | cons c l => rw [List.dropWhile_cons_of_neg (by simp [hl c rfl])]
  rw [trimBy, hkeeps h.first, hkeeps, List.reverse_reverse]
  rw [List.head?_reverse]
  exact h.last

theorem tight_trimBy (blank : Char → Bool) (cs : List Char) : Tight blank (trimBy blank cs) := by
  have hfront : ∀ (l : List Char) {c : Char}, (l.dropWhile blank).head? = some c → blank c = false := by
    intro l c hc
    have hstop := List.head?_dropWhile_not blank l
    rwa [hc] at hstop
  obtain ⟨lead, tail, _, _, _, hdrop⟩ := trimBy_split blank cs
  constructor
  · intro c hc
    apply hfront cs
    rw [hdrop, List.head?_append, hc, Option.some_or]
  · intro c hc
    rw [trimBy, List.getLast?_reverse] at hc
    exact hfront _ hc

theorem trimBy_sublist (blank : Char → Bool) (cs : List Char) : (trimBy blank cs).Sublist cs := by
  obtain ⟨lead, tail, hcs, _⟩ := trimBy_split blank cs
  conv => rhs; rw [hcs]
  exact (List.sublist_append_left _ tail).trans (List.sublist_append_right lead _)

theorem Tight.lower {blank : Char → Bool} (hblank : ∀ c, blank c = true → isPunctuation c = true)
    {cs : List Char} (h : Tight blank cs) : Tight blank (lower cs) := by
  constructor
  · intro d hd
    obtain ⟨c, hc, hfrom⟩ := head?_lower hd
    rw [hfrom.same hblank, h.first c hc]
  · intro d hd
    obtain ⟨c, hc, hfrom⟩ := getLast?_lower hd
    rw [hfrom.same hblank, h.last c hc]

/-! ### Parts -/

theorem splitOnChar_cons_sep (sep : Char) (cs : List Char) :
    splitOnChar sep (sep :: cs) = [] :: splitOnChar sep cs := by
  simp [splitOnChar]

theorem splitOnChar_ne_nil (sep : Char) (cs : List Char) : splitOnChar sep cs ≠ [] := by
  cases cs with
  | nil => exact nofun
  | cons c cs =>
    rw [splitOnChar]
    split
    · exact nofun
    · split <;> exact nofun

theorem splitOnChar_cons {sep c : Char} (hc : c ≠ sep) (cs : List Char) : ∃ part parts,
    splitOnChar sep cs = part :: parts ∧ splitOnChar sep (c :: cs) = (c :: part) :: parts := by
  obtain ⟨part, parts, hcs⟩ := List.exists_cons_of_ne_nil (splitOnChar_ne_nil sep cs)
  refine ⟨part, parts, hcs, ?_⟩
  rw [splitOnChar]
  simp [hc, hcs]

theorem splitOnChar_append (sep : Char) (as bs : List Char) :
    splitOnChar sep (as ++ sep :: bs) = splitOnChar sep as ++ splitOnChar sep bs := by
  induction as with
  | nil => simp [splitOnChar]
  | cons a as ih =>
    by_cases ha : a = sep
    · rw [ha, List.cons_append, splitOnChar_cons_sep, splitOnChar_cons_sep, ih, List.cons_append]
    · obtain ⟨part, parts, has, hcons⟩ := splitOnChar_cons ha as
      obtain ⟨part', parts', hall, hcons'⟩ := splitOnChar_cons ha (as ++ sep :: bs)
      rw [ih, has, List.cons_append] at hall
      cases hall
      rw [List.cons_append, hcons', hcons, List.cons_append]

theorem splitOnChar_of_notMem {sep : Char} {cs : List Char} (h : sep ∉ cs) :
    splitOnChar sep cs = [cs] := by
  induction cs with
  | nil => rfl
  | cons c cs ih =>
    have hne : c ≠ sep := by
      rintro rfl
      exact h List.mem_cons_self
    obtain ⟨part, parts, hcs, hcons⟩ := splitOnChar_cons hne cs
    rw [ih fun hmem => h (List.mem_cons_of_mem c hmem)] at hcs
    cases hcs
    exact hcons

theorem notMem_of_mem_splitOnChar {sep : Char} {cs part : List Char}
    (h : part ∈ splitOnChar sep cs) : sep ∉ part := by
  induction cs generalizing part with
  | nil => simp [List.mem_singleton.mp h]
  | cons c cs ih =>
    by_cases hc : c = sep
    · rw [hc, splitOnChar_cons_sep] at h
      rcases List.mem_cons.mp h with rfl | h
      · exact List.not_mem_nil
      · exact ih h
    · obtain ⟨first, parts, hcs, hcons⟩ := splitOnChar_cons hc cs
      rw [hcons] at h
      rw [hcs] at ih
      rcases List.mem_cons.mp h with rfl | h
      · rintro (_ | ⟨_, hmem⟩)
        · exact hc rfl
        · exact ih List.mem_cons_self hmem
      · exact ih (List.mem_cons_of_mem first h)

theorem mem_of_mem_splitOnChar {sep c : Char} {cs part : List Char} (hpart : part ∈ splitOnChar sep cs)
    (hc : c ∈ part) : c ∈ cs := by
  induction cs generalizing part with
  | nil =>
    rw [List.mem_singleton.mp hpart] at hc
    cases hc
  | cons d cs ih =>
    by_cases hd : d = sep
    · rw [hd, splitOnChar_cons_sep] at hpart
      rcases List.mem_cons.mp hpart with rfl | hpart
      · cases hc
      · exact List.mem_cons_of_mem d (ih hpart hc)
    · obtain ⟨first, parts, hcs, hcons⟩ := splitOnChar_cons hd cs
      rw [hcons] at hpart
      rw [hcs] at ih
      rcases List.mem_cons.mp hpart with rfl | hpart
      · rcases List.mem_cons.mp hc with rfl | hc
        · exact List.mem_cons_self
        · exact List.mem_cons_of_mem d (ih List.mem_cons_self hc)
      · exact List.mem_cons_of_mem d (ih (List.mem_cons_of_mem first hpart) hc)

theorem splitOnChar_joinWithChar {sep : Char} {parts : List (List Char)} (hne : parts ≠ [])
    (h : ∀ part ∈ parts, sep ∉ part) : splitOnChar sep (joinWithChar sep parts) = parts := by
  induction parts with
  | nil => exact absurd rfl hne
  | cons part parts ih =>
    have hfirst := splitOnChar_of_notMem (h part List.mem_cons_self)
    cases parts with
    | nil => exact hfirst
    | cons next parts =>
      change splitOnChar sep (part ++ sep :: joinWithChar sep (next :: parts)) = _
      rw [splitOnChar_append, hfirst, ih nofun fun p hp => h p (List.mem_cons_of_mem part hp)]
      rfl

theorem joinWithChar_splitOnChar (sep : Char) (cs : List Char) :
    joinWithChar sep (splitOnChar sep cs) = cs := by
  induction cs with
  | nil => rfl
  | cons c cs ih =>
    by_cases hc : c = sep
    · rw [hc, splitOnChar_cons_sep]
      obtain ⟨part, parts, hcs⟩ := List.exists_cons_of_ne_nil (splitOnChar_ne_nil sep cs)
      rw [hcs] at ih ⊢
      change [] ++ sep :: joinWithChar sep (part :: parts) = _
      rw [ih, List.nil_append]
    · obtain ⟨part, parts, hcs, hcons⟩ := splitOnChar_cons hc cs
      rw [hcs] at ih
      rw [hcons, ← ih]
      cases parts <;> rfl

/-! ### Parts in normal form -/

def normalPart (part : List Char) : List Char := lower (unwrapIdentifier part)

structure IsNormalPart (part : List Char) : Prop where
  tight : Tight isBlank part
  lower : ∀ c ∈ part, IsLower c

theorem isPunctuation_of_isBlank (c : Char) (h : isBlank c = true) : isPunctuation c = true := by
  rw [isPunctuation, h, Bool.true_or]

theorem unwrapIdentifier_sublist (part : List Char) : (unwrapIdentifier part).Sublist part :=
  (trimBy_sublist _ _).trans ((trimBy_sublist _ _).trans (trimBy_sublist _ _))

theorem isNormalPart_normalPart (part : List Char) : IsNormalPart (normalPart part) :=
  ⟨(tight_trimBy isBlank _).lower isPunctuation_of_isBlank, fun _ => isLower_of_mem_lower⟩

theorem dot_notMem_normalPart {part : List Char} (h : '.' ∉ part) : '.' ∉ normalPart part := by
  intro hdot
  obtain ⟨c, hc, hfrom⟩ := mem_lower hdot
  have hpoint : ∀ c : Char, (c == '.') = true → isPunctuation c = true := by
    intro c hc
    rw [beq_iff_eq.mp hc]
    decide +kernel
  have hsame := hfrom.same hpoint
  rw [beq_self_eq_true, eq_comm, beq_iff_eq] at hsame
  exact h (hsame ▸ (unwrapIdentifier_sublist part).subset hc)

/-- A part in normal form stays as it is exactly if no delimiter is at its ends. -/
theorem normalPart_eq_self_iff {part : List Char} (h : IsNormalPart part) :
    normalPart part = part ↔ Tight isNameDelimiter part := by
  have hlower : normalPart part = unwrapIdentifier part :=
    lower_eq_self fun c hc => h.lower c ((unwrapIdentifier_sublist part).subset hc)
  have htrim : trim part = part := trimBy_eq_self h.tight
  rw [hlower, unwrapIdentifier, htrim]
  constructor
  · intro heq
    -- nothing is left out, so the first of the two steps leaves nothing out either
    have hlength := (trimBy_sublist isBlank (trimBy isNameDelimiter part)).length_le
    rw [← trim, heq] at hlength
    have hsame := (trimBy_sublist isNameDelimiter part).eq_of_length_le hlength
    rw [← hsame]
    exact tight_trimBy isNameDelimiter part
  · intro htight
    rw [trimBy_eq_self htight, htrim]

/-! ### Names -/

def normalParts (raw : List Char) : List (List Char) := (splitOnChar '.' raw).map normalPart

/-- Whether two parts are a default schema and something in it. -/
def InDefaultSchema (parts : List (List Char)) : Prop := ∃ object, parts = [defaultSchema, object]

theorem inDefaultSchema_iff (parts : List (List Char)) :
    InDefaultSchema parts ↔ parts.length = 2 ∧ parts.head? = some defaultSchema := by
  constructor
  · rintro ⟨object, rfl⟩
    exact ⟨rfl, rfl⟩
  · rintro ⟨hlength, hhead⟩
    match parts, hlength with
    | [schema, object], _ =>
      cases hhead
      exact ⟨object, rfl⟩

instance (parts : List (List Char)) : Decidable (InDefaultSchema parts) :=
  decidable_of_iff _ (inDefaultSchema_iff parts).symm

theorem normalizeName_of_empty {raw : List Char} (h : ∀ part ∈ normalParts raw, part = []) :
    normalizeName raw = [] := by
  rw [normalizeName]
  exact if_pos (by simpa [normalParts, normalPart] using h)

theorem normalizeName_elided {raw object : List Char} (h : normalParts raw = [defaultSchema, object]) :
    normalizeName raw = object := by
  rw [normalizeName]
  simp only [show (splitOnChar '.' raw).map (fun part => lower (unwrapIdentifier part)) =
    [defaultSchema, object] from h]
  rfl

theorem normalizeName_joined {raw : List Char} (hsome : ∃ part ∈ normalParts raw, part ≠ [])
    (hschema : ¬InDefaultSchema (normalParts raw)) :
    normalizeName raw = joinWithChar '.' (normalParts raw) := by
  have hparts : (splitOnChar '.' raw).map (fun part => lower (unwrapIdentifier part)) =
      normalParts raw := rfl
  rw [normalizeName]
  simp only [hparts]
  rw [if_neg (by simpa using hsome)]
  split
  · rename_i schema object hparts
    refine if_neg fun hdbo => hschema ⟨object, ?_⟩
    rw [hparts, beq_iff_eq.mp hdbo]
  · rfl

theorem normalizeName_cases (raw : List Char) :
    (normalizeName raw = [] ∧ ∀ part ∈ normalParts raw, part = []) ∨
    (∃ object, normalParts raw = [defaultSchema, object] ∧ normalizeName raw = object) ∨
    ((∃ part ∈ normalParts raw, part ≠ []) ∧ ¬InDefaultSchema (normalParts raw) ∧
      normalizeName raw = joinWithChar '.' (normalParts raw)) := by
  by_cases hempty : ∀ part ∈ normalParts raw, part = []
  · exact .inl ⟨normalizeName_of_empty hempty, hempty⟩
  · by_cases hschema : InDefaultSchema (normalParts raw)
    · obtain ⟨object, hparts⟩ := hschema
      exact .inr (.inl ⟨object, hparts, normalizeName_elided hparts⟩)
    · have hsome : ∃ part ∈ normalParts raw, part ≠ [] := by simpa using hempty
      exact .inr (.inr ⟨hsome, hschema, normalizeName_joined hsome hschema⟩)

theorem dot_notMem_normalParts {raw part : List Char} (h : part ∈ normalParts raw) : '.' ∉ part := by
  obtain ⟨spelled, hspelled, rfl⟩ := List.mem_map.mp h
  exact dot_notMem_normalPart (notMem_of_mem_splitOnChar hspelled)

theorem normalParts_ne_nil (raw : List Char) : normalParts raw ≠ [] := by
  rw [normalParts, Ne, List.map_eq_nil_iff]
  exact splitOnChar_ne_nil '.' raw

theorem splitOnChar_joined (raw : List Char) :
    splitOnChar '.' (joinWithChar '.' (normalParts raw)) = normalParts raw :=
  splitOnChar_joinWithChar (normalParts_ne_nil raw) fun _ => dot_notMem_normalParts

structure IsNormalForm (name : List Char) : Prop where
  parts : ∀ part ∈ splitOnChar '.' name, IsNormalPart part
  elided : ¬InDefaultSchema (splitOnChar '.' name)
  named : name = [] ∨ ∃ part ∈ splitOnChar '.' name, part ≠ []

theorem isNormalForm_normalizeName (raw : List Char) : IsNormalForm (normalizeName raw) := by
  have hnormal : ∀ part ∈ normalParts raw, IsNormalPart part := by
    intro part hpart
    obtain ⟨spelled, _, rfl⟩ := List.mem_map.mp hpart
    exact isNormalPart_normalPart spelled
  have hempty : IsNormalPart [] := ⟨⟨nofun, nofun⟩, nofun⟩
  rcases normalizeName_cases raw with ⟨hname, _⟩ | ⟨object, hparts, hname⟩ | ⟨hsome, hschema, hname⟩
  · rw [hname]
    refine ⟨?_, ?_, .inl rfl⟩
    · intro part hpart
      rw [List.mem_singleton.mp hpart]
      exact hempty
    · rintro ⟨object, hobject⟩
      cases hobject
  · have hobject : object ∈ normalParts raw := by simp [hparts]
    rw [hname]
    have hsplit := splitOnChar_of_notMem (dot_notMem_normalParts hobject)
    refine ⟨?_, ?_, ?_⟩
    · intro part hpart
      rw [hsplit, List.mem_singleton] at hpart
      exact hpart ▸ hnormal object hobject
    · rintro ⟨rest, hrest⟩
      rw [hsplit] at hrest
      cases hrest
    · by_cases hnil : object = []
      · exact .inl hnil
      · exact .inr ⟨object, by rw [hsplit]; exact List.mem_singleton_self object, hnil⟩
  · rw [hname]
    refine ⟨?_, ?_, .inr ?_⟩
    · rwa [splitOnChar_joined]
    · rwa [splitOnChar_joined]
    · rwa [splitOnChar_joined]

theorem normalParts_eq_self_iff {name : List Char}
    (h : ∀ part ∈ splitOnChar '.' name, IsNormalPart part) :
    normalParts name = splitOnChar '.' name ↔
      ∀ part ∈ splitOnChar '.' name, Tight isNameDelimiter part := by
  conv => lhs; rhs; rw [← List.map_id (splitOnChar '.' name)]
  rw [normalParts, List.map_inj_left]
  exact forall₂_congr fun part hpart => normalPart_eq_self_iff (h part hpart)

/-- A name of trimmed parts in lower case is its own normal form exactly if no part has a delimiter
at its ends, its parts are not a default schema and something in it, and not all empty. -/
theorem normalizeName_eq_self_iff {name : List Char}
    (h : ∀ part ∈ splitOnChar '.' name, IsNormalPart part) :
    normalizeName name = name ↔ (∀ part ∈ splitOnChar '.' name, Tight isNameDelimiter part) ∧
      ¬InDefaultSchema (splitOnChar '.' name) ∧
      (name = [] ∨ ∃ part ∈ splitOnChar '.' name, part ≠ []) := by
  constructor
  · intro hself
    have hform := isNormalForm_normalizeName name
    rw [hself] at hform
    refine ⟨?_, hform.elided, hform.named⟩
    rw [← normalParts_eq_self_iff h]
    rcases normalizeName_cases name with ⟨hname, _⟩ | ⟨object, hparts, hname⟩ | ⟨_, _, hname⟩
    · rw [hself] at hname
      rw [hname]
      rfl
    · -- a name that is one of its parts has no other part
      have hobject : object ∈ normalParts name := by simp [hparts]
      have hsplit := splitOnChar_of_notMem (dot_notMem_normalParts hobject)
      rw [hself] at hname
      have hlength := congrArg List.length hparts
      rw [normalParts, List.length_map, hname, hsplit] at hlength
      cases hlength
    · rw [← splitOnChar_joined, ← hname, hself]
  · rintro ⟨htight, hschema, hnamed⟩
    have hparts := (normalParts_eq_self_iff h).mpr htight
    rcases hnamed with rfl | hsome
    · rfl
    · rw [← hparts] at hschema hsome
      rw [normalizeName_joined hsome hschema, hparts, joinWithChar_splitOnChar]

/-- Normalizing a name once more changes nothing exactly if none of its parts still has a delimiter
at its ends. -/
theorem normalizeName_twice_iff (raw : List Char) :
    normalizeName (normalizeName raw) = normalizeName raw ↔
      ∀ part ∈ splitOnChar '.' (normalizeName raw), Tight isNameDelimiter part := by
  have hform := isNormalForm_normalizeName raw
  rw [normalizeName_eq_self_iff hform.parts]
  exact ⟨fun h => h.1, fun h => ⟨h, hform.elided, hform.named⟩⟩

/-- Delimiters behind a blank survive the first pass. -/
theorem normalizeName_nested :
    normalizeName "[ [a] ]".toList = "[a]".toList ∧ normalizeName "[a]".toList = "a".toList ∧
      normalizeName (normalizeName "[ [a] ]".toList) ≠ normalizeName "[ [a] ]".toList := by
  decide +kernel

end SqlAtlas
