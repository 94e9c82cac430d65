import SqlAtlas.Index
import SqlAtlas.Proofs.Dict

/-!
# The table of references

References are stored by name and then by file. What the table has for a file and a name says
everything about it but its order; purging, publishing and retracting change it at one file only.
A name without references, and a file without references to a name, are not listed.
-/

namespace SqlAtlas.SymbolIndex

set_option autoImplicit false

open Text

abbrev ReferenceTable := Dict Name (Dict String (List Reference))

def referencesAt (t : ReferenceTable) (uri : String) (name : Name) : List Reference :=
  ((t.get? name).bind (·.get? uri)).getD []

theorem referencesTo_eq (x : SymbolIndex) (uri : String) (name : Name) :
    x.referencesTo uri name = referencesAt x.references uri name := rfl

def changedRow (row : Dict String (List Reference)) (uri : String)
    (f : List Reference → List Reference) : Dict String (List Reference) :=
  row.alter uri fun rs =>
    match f (rs.getD []) with
    | [] => none
    | left => some left

theorem get?_changedRow (row : Dict String (List Reference)) (uri uri' : String)
    (f : List Reference → List Reference) : ((changedRow row uri f).get? uri').getD [] =
      if uri = uri' then f ((row.get? uri).getD []) else (row.get? uri').getD [] := by
  rw [changedRow, Dict.get?_alter]
  by_cases h : uri = uri'
  · rw [if_pos h, if_pos h]
    cases hf : f ((row.get? uri).getD []) <;> rfl
  · rw [if_neg h, if_neg h]

theorem alterReferences_eq (t : ReferenceTable) (name : Name) (uri : String)
    (f : List Reference → List Reference) : alterReferences t name uri f =
      t.alter name fun row =>
        let changed := changedRow (row.getD {}) uri f
        if changed.isEmpty then none else some changed := rfl

theorem getD_get?_of_isEmpty {row : Dict String (List Reference)} (h : row.isEmpty = true)
    (uri : String) : (row.get? uri).getD [] = [] := by
  have hnone : row.get? uri = none := by
    rw [Dict.get?_eq_none_iff, (Dict.isEmpty_iff_keys row).mp h]
    exact List.not_mem_nil
  rw [hnone]
  rfl

theorem referencesAt_alterReferences (t : ReferenceTable) (name name' : Name) (uri uri' : String)
    (f : List Reference → List Reference) :
    referencesAt (alterReferences t name uri f) uri' name' =
      if name = name' ∧ uri = uri' then f (referencesAt t uri name)
      else referencesAt t uri' name' := by
  rw [alterReferences_eq, referencesAt, Dict.get?_alter]
  by_cases hname : name = name'
  · subst hname
    have hrow : ∀ v, ((if (changedRow ((t.get? name).getD {}) uri f).isEmpty = true then none
        else some (changedRow ((t.get? name).getD {}) uri f)).bind (·.get? v)).getD [] =
        ((changedRow ((t.get? name).getD {}) uri f).get? v).getD [] := by
      intro v
      split
      · rename_i hempty
        rw [getD_get?_of_isEmpty hempty]
        rfl
      · rfl
    have hold : ∀ v, (((t.get? name).getD {}).get? v).getD [] = referencesAt t v name := by
      intro v
      rw [referencesAt]
      cases t.get? name <;> rfl
    rw [if_pos rfl, hrow, get?_changedRow, hold, hold]
    simp only [true_and]
  · rw [if_neg hname, if_neg fun h => hname h.1]
    rfl

/-- Nothing is listed without a reference. -/
structure Compact (t : ReferenceTable) : Prop where
  distinct : t.Distinct
  row_distinct : ∀ {name row}, t.get? name = some row → row.Distinct
  row_nonempty : ∀ {name row}, t.get? name = some row → row.keys ≠ []
  cell_nonempty : ∀ {name row}, t.get? name = some row → ∀ uri, row.get? uri ≠ some []

theorem compact_empty : Compact {} where
  distinct := Dict.distinct_empty
  row_distinct h := by cases h
  row_nonempty h := by cases h
  cell_nonempty h := by cases h

theorem Compact.alterReferences {t : ReferenceTable} (h : Compact t) (name : Name) (uri : String)
    (f : List Reference → List Reference) : Compact (alterReferences t name uri f) := by
  -- a row of the new table is a row of the old one, or the changed row, which is not empty
  have hrows : ∀ {n row}, (SymbolIndex.alterReferences t name uri f).get? n = some row →
      t.get? n = some row ∨
        row = changedRow ((t.get? name).getD {}) uri f ∧ row.isEmpty = false := by
    intro n row hn
    rw [alterReferences_eq, Dict.get?_alter] at hn
    split at hn
    · right
      simp only at hn
      split at hn
      · cases hn
      · rename_i hne
        cases hn
        exact ⟨rfl, by simpa using hne⟩
    · exact .inl hn
  have hold : (((t.get? name).getD {}) : Dict String (List Reference)).Distinct ∧
      ∀ v, ((t.get? name).getD {}).get? v ≠ some [] := by
    cases hrow : t.get? name with
    | none => exact ⟨Dict.distinct_empty, by simp⟩
    | some row => exact ⟨h.row_distinct hrow, h.cell_nonempty hrow⟩
  refine ⟨?_, ?_, ?_, ?_⟩
  · rw [alterReferences_eq]
    exact h.distinct.alter name _
  · intro n row hn
    rcases hrows hn with hn | ⟨rfl, _⟩
    · exact h.row_distinct hn
    · exact hold.1.alter uri _
  · intro n row hn
    rcases hrows hn with hn | ⟨rfl, hne⟩
    · exact h.row_nonempty hn
    · intro hkeys
      rw [(Dict.isEmpty_iff_keys _).mpr hkeys] at hne
      cases hne
  · intro n row hn v
    rcases hrows hn with hn | ⟨rfl, _⟩
    · exact h.cell_nonempty hn v
    · rw [changedRow, Dict.get?_alter]
      split
      · split
        · simp
        · rename_i hleft
          simpa using hleft
      · exact hold.2 v

theorem Compact.foldl {ι : Type} {t : ReferenceTable} (h : Compact t) (is : List ι)
    (name : ι → Name) (uri : String) (f : ι → List Reference → List Reference) :
    Compact (is.foldl (fun t i => SymbolIndex.alterReferences t (name i) uri (f i)) t) := by
  induction is generalizing t with
  | nil => exact h
  | cons i is ih => exact ih (h.alterReferences (name i) uri (f i))

theorem Compact.mem_keys_iff {t : ReferenceTable} (h : Compact t) (name : Name) :
    name ∈ t.keys ↔ ∃ uri, referencesAt t uri name ≠ [] := by
  rw [Dict.mem_keys_iff]
  constructor
  · intro hsome
    obtain ⟨row, hrow⟩ := Option.isSome_iff_exists.mp hsome
    obtain ⟨uri, huri⟩ := List.exists_mem_of_ne_nil _ (h.row_nonempty hrow)
    obtain ⟨rs, hrs⟩ := Option.isSome_iff_exists.mp ((Dict.mem_keys_iff row uri).mp huri)
    refine ⟨uri, ?_⟩
    rw [referencesAt, hrow, Option.bind_some, hrs]
    rintro hnil
    exact h.cell_nonempty hrow uri (by rw [hrs, ← hnil]; rfl)
  · rintro ⟨uri, huri⟩
    cases hrow : t.get? name with
    | none => rw [referencesAt, hrow] at huri; exact absurd rfl huri
    | some row => rfl

/-! ### Whole changes of a file -/

theorem referencesAt_foldl_purge (uri uri' : String) (name : Name) (names : List Name)
    (t : ReferenceTable) :
    referencesAt (names.foldl (fun t n => alterReferences t n uri fun _ => []) t) uri' name =
      if uri = uri' ∧ name ∈ names then [] else referencesAt t uri' name := by
  induction names generalizing t with
  | nil => simp
  | cons n names ih =>
    rw [List.foldl_cons, ih, referencesAt_alterReferences]
    by_cases huri : uri = uri'
    · by_cases hn : n = name
      · simp [huri, hn]
      · simp [huri, hn, Ne.symm hn]
    · simp [huri]

theorem referencesAt_foldl_publish (uri uri' : String) (name : Name) (refs : List Reference)
    (t : ReferenceTable) :
    referencesAt (refs.foldl (fun t r => alterReferences t r.name uri fun rs => rs ++ [r]) t)
      uri' name =
        if uri = uri' then referencesAt t uri' name ++ refs.filter (·.name = name)
        else referencesAt t uri' name := by
  induction refs generalizing t with
  | nil => simp
  | cons r refs ih =>
    rw [List.foldl_cons, ih, referencesAt_alterReferences]
    by_cases huri : uri = uri'
    · subst huri
      by_cases hr : r.name = name
      · subst hr
        simp
      · simp [hr]
    · simp [huri]

end SqlAtlas.SymbolIndex
