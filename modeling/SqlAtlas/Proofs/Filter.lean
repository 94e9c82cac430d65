import SqlAtlas.Proofs.Text.Occurs
import SqlAtlas.Workspace

/-!
# What the filter answers

The filter names the first fragment that occurs in the name of a file, and without any the first pattern
that the path fits. Settings are accepted with an empty fragment, which occurs in every name and which
no search can find: where no fragment before it occurs, the filter has no answer.
-/

namespace SqlAtlas

set_option autoImplicit false

open Text

def IsFirst {α : Type} (p : α → Prop) (x : α) (xs : List α) : Prop :=
  ∃ before behind, xs = before ++ x :: behind ∧ p x ∧ ∀ y ∈ before, ¬p y

section

variable {α : Type} {p : α → Prop} {x y : α} {xs : List α}

theorem isFirst_cons_iff : IsFirst p x (y :: xs) ↔ x = y ∧ p x ∨ ¬p y ∧ IsFirst p x xs := by
  constructor
  · rintro ⟨before, behind, heq, hx, hbefore⟩
    cases before with
    | nil => exact Or.inl ⟨(List.cons.inj heq).1.symm, hx⟩
    | cons z before =>
      obtain ⟨rfl, rfl⟩ := List.cons.inj heq
      obtain ⟨hy, hbefore⟩ := List.forall_mem_cons.mp hbefore
      exact Or.inr ⟨hy, before, behind, rfl, hx, hbefore⟩
  · rintro (⟨rfl, hx⟩ | ⟨hy, before, behind, rfl, hx, hbefore⟩)
    · exact ⟨[], xs, rfl, hx, fun _ hy => nomatch hy⟩
    · exact ⟨y :: before, behind, rfl, hx, List.forall_mem_cons.mpr ⟨hy, hbefore⟩⟩

theorem IsFirst.mem (h : IsFirst p x xs) : x ∈ xs := by
  obtain ⟨before, behind, rfl, -, -⟩ := h
  simp

theorem IsFirst.holds (h : IsFirst p x xs) : p x := by
  obtain ⟨before, behind, -, hx, -⟩ := h
  exact hx

/-- There is one first at most. -/
theorem IsFirst.unique (hx : IsFirst p x xs) (hy : IsFirst p y xs) : x = y := by
  induction xs with
  | nil => exact nomatch hx.mem
  | cons z xs ih =>
    rcases isFirst_cons_iff.mp hx with ⟨rfl, hpx⟩ | ⟨hz, hx⟩
    · rcases isFirst_cons_iff.mp hy with ⟨rfl, -⟩ | ⟨hz, -⟩
      · rfl
      · exact absurd hpx hz
    · rcases isFirst_cons_iff.mp hy with ⟨rfl, hpy⟩ | ⟨-, hy⟩
      · exact absurd hpy hz
      · exact ih hx hy

end

namespace Settings

/-! ### What is asked of a name -/

def NamesSql (uri : List Char) : Prop := asciiLower ".sql".toList <:+ asciiLower uri

def Occurs (uri fragment : List Char) : Prop := asciiLower fragment <:+: asciiLower uri

def Fits (uri pattern : List Char) : Prop :=
  ∃ glob, Glob.ofText pattern = .ok glob ∧ glob.isMatch (pathOfUri uri) = true

structure Admits (s : Settings) (uri : List Char) (bytes : Nat) : Prop where
  sql : NamesSql uri
  small : bytes ≤ s.maxFileBytes

structure Filters (s : Settings) (uri : List Char) (bytes : Nat)
    (answer : Except FilterFault (Option SkipReason)) : Prop where
  /-- Only the empty fragment keeps the filter from an answer, where it is the first that occurs. -/
  answers : (∃ reason, answer = .ok reason) ↔
    ¬(s.Admits uri bytes ∧ IsFirst (Occurs uri) [] s.fragments)
  notSql : ¬NamesSql uri → answer = .ok (some .notSql)
  tooLarge : NamesSql uri → s.maxFileBytes < bytes →
    answer = .ok (some (.tooLarge bytes s.maxFileBytes))
  fragment : s.Admits uri bytes → ∀ f ≠ [], IsFirst (Occurs uri) f s.fragments →
    answer = .ok (some (.excluded f))
  pattern : s.Admits uri bytes → (∀ f ∈ s.fragments, ¬Occurs uri f) →
    ∀ g, IsFirst (Fits uri) g s.globs → answer = .ok (some (.excluded g))
  taken : s.Admits uri bytes → (∀ f ∈ s.fragments, ¬Occurs uri f) →
    (∀ g ∈ s.globs, ¬Fits uri g) → answer = .ok none

end Settings

open Settings

/-! ### Fragments -/

namespace PathFilter

theorem isSql_iff {uri : List Char} : isSql uri = true ↔ NamesSql uri := endsFolded_iff

/-- The first fragment that occurs is the answer, and the fault if it is empty. -/
theorem fragment?_cases (uri : List Char) (fragments : List (List Char)) :
    (∃ f, IsFirst (Occurs uri) f fragments ∧
      fragment? uri fragments = if f = [] then .error .emptyFragment else .ok (some f)) ∨
    ((∀ f ∈ fragments, ¬Occurs uri f) ∧ fragment? uri fragments = .ok none) := by
  induction fragments with
  | nil => exact Or.inr ⟨fun _ hf => (nomatch hf), rfl⟩
  | cons f fs ih =>
    rw [fragment?]
    by_cases hnil : f = []
    · subst hnil
      rw [occursFolded?_eq_none_iff.mpr rfl]
      exact Or.inl ⟨[], isFirst_cons_iff.mpr (.inl ⟨rfl, List.nil_infix⟩), rfl⟩
    · rw [occursFolded?_of_ne_nil hnil]
      cases hfound : occursIn (asciiLower f) (asciiLower uri) with
      | true =>
        exact Or.inl ⟨f, isFirst_cons_iff.mpr (.inl ⟨rfl, occursIn_iff.mp hfound⟩), (if_neg hnil).symm⟩
      | false =>
        have hnot : ¬Occurs uri f := mt occursIn_iff.mpr (Bool.eq_false_iff.mp hfound)
        rcases ih with ⟨g, hfirst, hanswer⟩ | ⟨hnone, hanswer⟩
        · exact Or.inl ⟨g, isFirst_cons_iff.mpr (.inr ⟨hnot, hfirst⟩), hanswer⟩
        · exact Or.inr ⟨List.forall_mem_cons.mpr ⟨hnot, hnone⟩, hanswer⟩

end PathFilter

/-! ### Patterns -/

theorem Glob.text_of_ofText {pattern : List Char} {glob : Glob} (h : Glob.ofText pattern = .ok glob) :
    glob.text = pattern := by
  rw [Glob.ofText] at h
  cases hparse : Glob.parse 0 none pattern with
  | error e => rw [hparse] at h; cases h
  | ok tokens => rw [hparse] at h; cases h; rfl

namespace Settings

theorem readGlobs_of_validate {s : Settings} {globs : List Glob} (h : s.validate = .ok globs) :
    readGlobs s.globs = .ok globs := by
  rw [validate] at h
  split at h
  · cases h
  split at h
  · cases h
  split at h
  · cases h
  split at h
  · cases h
  · exact h

/-- The patterns that were read are asked in the order of the settings. -/
theorem find?_readGlobs (uri : List Char) {patterns : List (List Char)} {globs : List Glob}
    (h : readGlobs patterns = .ok globs) :
    (∃ g, IsFirst (Fits uri) g patterns ∧
      (globs.find? (·.isMatch (pathOfUri uri))).map (·.text) = some g) ∨
    ((∀ g ∈ patterns, ¬Fits uri g) ∧ globs.find? (·.isMatch (pathOfUri uri)) = none) := by
  induction patterns generalizing globs with
  | nil => cases h; exact Or.inr ⟨fun _ hg => (nomatch hg), rfl⟩
  | cons pattern patterns ih =>
    rw [readGlobs] at h
    cases hglob : Glob.ofText pattern with
    | error e => rw [hglob] at h; cases h
    | ok glob =>
      rw [hglob] at h
      obtain ⟨rest, hrest, rfl⟩ : ∃ rest, readGlobs patterns = .ok rest ∧ glob :: rest = globs := by
        cases hrest : readGlobs patterns with
        | error e => rw [hrest] at h; cases h
        | ok rest => rw [hrest] at h; cases h; exact ⟨rest, rfl, rfl⟩
      have hfits : Fits uri pattern ↔ glob.isMatch (pathOfUri uri) = true := by
        rw [Fits, hglob]
        exact ⟨fun ⟨_, heq, hmatch⟩ => Except.ok.inj heq ▸ hmatch, fun hmatch => ⟨glob, rfl, hmatch⟩⟩
      cases hmatch : glob.isMatch (pathOfUri uri) with
      | true =>
        refine Or.inl ⟨pattern, isFirst_cons_iff.mpr (.inl ⟨rfl, hfits.mpr hmatch⟩), ?_⟩
        rw [List.find?_cons, hmatch, Option.map_some, Glob.text_of_ofText hglob]
      | false =>
        have hnot : ¬Fits uri pattern := by rw [hfits, hmatch]; exact Bool.false_ne_true
        rw [List.find?_cons, hmatch]
        rcases ih hrest with ⟨g, hfirst, hfind⟩ | ⟨hnone, hfind⟩
        · exact Or.inl ⟨g, isFirst_cons_iff.mpr (.inr ⟨hnot, hfirst⟩), hfind⟩
        · exact Or.inr ⟨List.forall_mem_cons.mpr ⟨hnot, hnone⟩, hfind⟩

end Settings

/-! ### Answers -/

namespace Workspace

section

variable {w : Workspace} {uri : String} {bytes : Nat}

theorem skipReason?_of_not_sql (h : ¬NamesSql uri.toList) :
    w.skipReason? uri bytes = .ok (some .notSql) := by
  rw [skipReason?, PathFilter.skipReason?, if_pos]
  rw [Bool.not_eq_true', Bool.eq_false_iff]
  exact mt PathFilter.isSql_iff.mp h

theorem skipReason?_of_large (h : NamesSql uri.toList) (hlarge : w.settings.maxFileBytes < bytes) :
    w.skipReason? uri bytes = .ok (some (.tooLarge bytes w.settings.maxFileBytes)) := by
  rw [skipReason?, PathFilter.skipReason?, PathFilter.isSql_iff.mpr h]
  exact if_pos hlarge

variable (hadmits : w.settings.Admits uri.toList bytes)

include hadmits

theorem skipReason?_of_admits :
    w.skipReason? uri bytes =
      match PathFilter.fragment? uri.toList w.settings.fragments with
      | .error e => .error e
      | .ok (some fragment) => .ok (some (.excluded fragment))
      | .ok none =>
        .ok ((w.globs.find? (·.isMatch (pathOfUri uri.toList))).map fun g => .excluded g.text) := by
  rw [skipReason?, PathFilter.skipReason?, PathFilter.isSql_iff.mpr hadmits.sql]
  exact if_neg (Nat.not_lt.mpr hadmits.small)

theorem skipReason?_of_fragment {f : List Char}
    (hfirst : IsFirst (Occurs uri.toList) f w.settings.fragments) :
    w.skipReason? uri bytes = if f = [] then .error .emptyFragment else .ok (some (.excluded f)) := by
  rw [skipReason?_of_admits hadmits]
  rcases PathFilter.fragment?_cases uri.toList w.settings.fragments with
    ⟨f', hfirst', hanswer⟩ | ⟨hnone, -⟩
  · obtain rfl := hfirst.unique hfirst'
    rw [hanswer]
    by_cases hnil : f = []
    · rw [if_pos hnil, if_pos hnil]
    · rw [if_neg hnil, if_neg hnil]
  · exact absurd hfirst.holds (hnone f hfirst.mem)

theorem skipReason?_of_no_fragment (hnone : ∀ f ∈ w.settings.fragments, ¬Occurs uri.toList f) :
    w.skipReason? uri bytes =
      .ok ((w.globs.find? (·.isMatch (pathOfUri uri.toList))).map fun g => .excluded g.text) := by
  rw [skipReason?_of_admits hadmits]
  rcases PathFilter.fragment?_cases uri.toList w.settings.fragments with
    ⟨f, hfirst, -⟩ | ⟨-, hanswer⟩
  · exact absurd hfirst.holds (hnone f hfirst.mem)
  · rw [hanswer]

end

theorem skipReason?_isOk_iff {w : Workspace} {uri : String} {bytes : Nat} :
    (∃ reason, w.skipReason? uri bytes = .ok reason) ↔
      ¬(w.settings.Admits uri.toList bytes ∧ IsFirst (Occurs uri.toList) [] w.settings.fragments) := by
  constructor
  · rintro ⟨reason, hok⟩ ⟨hadmits, hfirst⟩
    rw [skipReason?_of_fragment hadmits hfirst, if_pos rfl] at hok
    cases hok
  · intro hnot
    by_cases hsql : NamesSql uri.toList
    · by_cases hlarge : w.settings.maxFileBytes < bytes
      · exact ⟨_, skipReason?_of_large hsql hlarge⟩
      · have hadmits : w.settings.Admits uri.toList bytes := ⟨hsql, Nat.not_lt.mp hlarge⟩
        rcases PathFilter.fragment?_cases uri.toList w.settings.fragments with
          ⟨f, hfirst, -⟩ | ⟨hnone, -⟩
        · have hne : f ≠ [] := fun hnil => hnot ⟨hadmits, hnil ▸ hfirst⟩
          exact ⟨_, (skipReason?_of_fragment hadmits hfirst).trans (if_neg hne)⟩
        · exact ⟨_, skipReason?_of_no_fragment hadmits hnone⟩
    · exact ⟨_, skipReason?_of_not_sql hsql⟩

/-- What a workspace with accepted settings answers about every file. -/
theorem skips_exactly {w : Workspace} (h : w.settings.validate = .ok w.globs) (uri : String)
    (bytes : Nat) : w.settings.Filters uri.toList bytes (w.skipReason? uri bytes) where
  answers := skipReason?_isOk_iff
  notSql := skipReason?_of_not_sql
  tooLarge := skipReason?_of_large
  fragment hadmits f hne hfirst := (skipReason?_of_fragment hadmits hfirst).trans (if_neg hne)
  pattern hadmits hnone g hfirst := by
    rw [skipReason?_of_no_fragment hadmits hnone]
    rcases find?_readGlobs uri.toList (readGlobs_of_validate h) with ⟨g', hfirst', hfind⟩ | ⟨hnone', -⟩
    · obtain rfl := hfirst.unique hfirst'
      obtain ⟨glob, hglob, rfl⟩ := Option.map_eq_some_iff.mp hfind
      rw [hglob, Option.map_some]
    · exact absurd hfirst.holds (hnone' g hfirst.mem)
  taken hadmits hnone hnone' := by
    rw [skipReason?_of_no_fragment hadmits hnone]
    rcases find?_readGlobs uri.toList (readGlobs_of_validate h) with ⟨g, hfirst, -⟩ | ⟨-, hfind⟩
    · exact absurd hfirst.holds (hnone' g hfirst.mem)
    · rw [hfind, Option.map_none]

/-- A fragment in capitals, and its name in small letters. -/
theorem skips_exactly_deployment :
    let w : Workspace := { settings := { fragments := [['X'], ['D', 'E']] }, globs := [] }
    w.settings.validate = .ok w.globs ∧
      w.settings.Filters "de.sql".toList 1 (w.skipReason? "de.sql" 1) ∧
      w.skipReason? "de.sql" 1 = .ok (some (.excluded ['D', 'E'])) := by
  intro w
  have h : w.settings.validate = .ok w.globs := rfl
  exact ⟨h, skips_exactly h "de.sql" 1, by decide +kernel⟩

/-- Settings with an empty fragment are accepted, and then the filter has no answer. -/
theorem accepted_without_answer :
    let w : Workspace := { settings := { fragments := [[]] }, globs := [] }
    w.settings.validate = .ok w.globs ∧ w.skipReason? "a.sql" 1 = .error .emptyFragment :=
  ⟨rfl, by decide +kernel⟩

end Workspace

end SqlAtlas
