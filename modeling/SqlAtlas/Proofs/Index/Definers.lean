import Mathlib.Data.String.Basic
import SqlAtlas.Index.Query
import SqlAtlas.Proofs.Dict

/-!
# Which files define a name

The files that define a name are listed under the name, ascending, and the definitions themselves
under the file. Both say the same: purging a file and publishing its definitions change them
together.
-/

namespace SqlAtlas.SymbolIndex

set_option autoImplicit false

theorem insertText_eq (s : String) (ts : List String) :
    insertText s ts = Arrangement.insertAscending (fun a b => decide (a < b)) s ts := by
  induction ts with
  | nil => rfl
  | cons t ts ih =>
    rw [insertText, Arrangement.insertAscending, ih]
    simp only [decide_eq_true_eq]

@[simp] theorem mem_insertText {s t : String} {ts : List String} :
    t ∈ insertText s ts ↔ t = s ∨ t ∈ ts := by
  rw [insertText_eq, Arrangement.mem_insertAscending]

theorem pairwise_insertText {ts : List String} (h : ts.Pairwise (· < ·)) (s : String) :
    (insertText s ts).Pairwise (· < ·) := by
  have htrans : ∀ a b c : String, decide (a < b) = true → decide (b < c) = true →
      decide (a < c) = true := by
    intro a b c hab hbc
    rw [decide_eq_true_eq] at hab hbc ⊢
    exact lt_trans hab hbc
  have htotal : ∀ a b : String, a ≠ b → decide (a < b) = false → decide (b < a) = true := by
    intro a b hne hge
    rw [decide_eq_false_iff_not] at hge
    rw [decide_eq_true_eq]
    exact lt_of_le_of_ne (not_lt.mp hge) hne.symm
  have hsorted := Arrangement.pairwise_insertAscending htrans htotal (by simpa using h) s
  rw [insertText_eq]
  simpa using hsorted

theorem nodup_of_ascending {ts : List String} (h : ts.Pairwise (· < ·)) : ts.Nodup :=
  h.imp fun hlt => ne_of_lt hlt

/-! ### The files of an index -/

theorem foldl_insertText (us acc : List String) (h : acc.Pairwise (· < ·)) :
    (us.foldl (fun us u => insertText u us) acc).Pairwise (· < ·) ∧
      ∀ u, u ∈ us.foldl (fun us u => insertText u us) acc ↔ u ∈ us ∨ u ∈ acc := by
  induction us generalizing acc with
  | nil => exact ⟨h, by simp⟩
  | cons u us ih =>
    obtain ⟨hsorted, hmem⟩ := ih (insertText u acc) (pairwise_insertText h u)
    refine ⟨hsorted, fun v => ?_⟩
    rw [List.foldl_cons, hmem, mem_insertText, List.mem_cons, or_left_comm, or_assoc]

theorem files_ascending (x : SymbolIndex) : x.files.Pairwise (· < ·) :=
  (foldl_insertText x.generations.keys [] List.Pairwise.nil).1

theorem mem_files_iff (x : SymbolIndex) (uri : String) : uri ∈ x.files ↔ uri ∈ x.generations.keys := by
  rw [files, (foldl_insertText x.generations.keys [] List.Pairwise.nil).2]
  simp

theorem files_perm_keys {x : SymbolIndex} (h : x.generations.Distinct) :
    x.files.Perm x.generations.keys := by
  rw [List.perm_ext_iff_of_nodup (nodup_of_ascending (files_ascending x)) h]
  exact mem_files_iff x

/-! ### Definitions by file and by name -/

def definersAt (files : Dict Name (List String)) (name : Name) : List String :=
  (files.get? name).getD []

def symbolsAt (symbols : Dict String (List SymbolDef)) (uri : String) : List SymbolDef :=
  (symbols.get? uri).getD []

structure DefinitionsAgree (symbols : Dict String (List SymbolDef)) (files : Dict Name (List String)) :
    Prop where
  distinct : symbols.Distinct
  ascending : ∀ name, (definersAt files name).Pairwise (· < ·)
  mem_iff : ∀ name uri,
    uri ∈ definersAt files name ↔ ∃ s ∈ symbolsAt symbols uri, s.name = name

theorem definitionsAgree_empty : DefinitionsAgree {} {} where
  distinct := Dict.distinct_empty
  ascending _ := List.Pairwise.nil
  mem_iff name uri := by simp [definersAt, symbolsAt]

theorem definersAt_dropDefiner (uri : String) (files : Dict Name (List String)) (s : SymbolDef)
    (name : Name) : definersAt (dropDefiner uri files s) name =
      if s.name = name then (definersAt files name).filter fun u => decide (u ≠ uri)
      else definersAt files name := by
  rw [definersAt, dropDefiner, Dict.get?_alter]
  by_cases h : s.name = name
  · subst h
    rw [if_pos rfl, if_pos rfl, definersAt]
    cases files.get? s.name with
    | none => rfl
    | some us =>
      simp only [Option.getD_some]
      split
      · rename_i hempty
        rw [List.isEmpty_iff.mp hempty]
        rfl
      · rfl
  · rw [if_neg h, if_neg h]
    rfl

theorem definersAt_foldl_dropDefiner (uri : String) (symbols : List SymbolDef)
    (files : Dict Name (List String)) (name : Name) :
    definersAt (symbols.foldl (dropDefiner uri) files) name =
      if ∃ s ∈ symbols, s.name = name then (definersAt files name).filter fun u => decide (u ≠ uri)
      else definersAt files name := by
  induction symbols generalizing files with
  | nil => simp
  | cons s symbols ih =>
    rw [List.foldl_cons, ih, definersAt_dropDefiner]
    by_cases hs : s.name = name
    · simp [hs]
    · simp [hs]

def addDefiner (uri : String) (files : Dict Name (List String)) (s : SymbolDef) :
    Dict Name (List String) :=
  files.alter s.name fun us => some (insertText uri (us.getD []))

theorem definersAt_addDefiner (uri : String) (files : Dict Name (List String)) (s : SymbolDef)
    (name : Name) : definersAt (addDefiner uri files s) name =
      if s.name = name then insertText uri (definersAt files name) else definersAt files name := by
  rw [definersAt, addDefiner, Dict.get?_alter]
  split
  · rename_i h
    subst h
    rfl
  · rfl

theorem foldl_addDefiner (uri : String) (symbols : List SymbolDef) (files : Dict Name (List String))
    (hsorted : ∀ name, (definersAt files name).Pairwise (· < ·)) (name : Name) :
    (definersAt (symbols.foldl (addDefiner uri) files) name).Pairwise (· < ·) ∧
      ∀ u, u ∈ definersAt (symbols.foldl (addDefiner uri) files) name ↔
        (u = uri ∧ ∃ s ∈ symbols, s.name = name) ∨ u ∈ definersAt files name := by
  induction symbols generalizing files with
  | nil => exact ⟨hsorted name, by simp⟩
  | cons s symbols ih =>
    have hadded : ∀ name, (definersAt (addDefiner uri files s) name).Pairwise (· < ·) := by
      intro n
      rw [definersAt_addDefiner]
      split
      · exact pairwise_insertText (hsorted n) uri
      · exact hsorted n
    obtain ⟨hsorted', hmem⟩ := ih (addDefiner uri files s) hadded
    refine ⟨hsorted', fun u => ?_⟩
    rw [List.foldl_cons, hmem, definersAt_addDefiner]
    by_cases hs : s.name = name
    · simp only [hs, if_true, mem_insertText, List.mem_cons, exists_eq_or_imp, true_or, and_true]
      tauto
    · simp [hs]

theorem DefinitionsAgree.purge {symbols : Dict String (List SymbolDef)}
    {files : Dict Name (List String)} (h : DefinitionsAgree symbols files) (uri : String) :
    DefinitionsAgree (symbols.erase uri)
      ((symbolsAt symbols uri).foldl (dropDefiner uri) files) := by
  -- the file is a definer of the names of its symbols only, so it leaves all names at once
  have hdefiners : ∀ name, definersAt ((symbolsAt symbols uri).foldl (dropDefiner uri) files) name =
      (definersAt files name).filter fun u => decide (u ≠ uri) := by
    intro name
    rw [definersAt_foldl_dropDefiner]
    split
    · rfl
    · rename_i hno
      refine (List.filter_eq_self.mpr fun u hu => ?_).symm
      have hne : u ≠ uri := by
        rintro rfl
        exact hno ((h.mem_iff name u).mp hu)
      simpa using hne
  refine ⟨h.distinct.erase uri, ?_, ?_⟩
  · intro name
    rw [hdefiners]
    exact (h.ascending name).filter _
  · intro name u
    rw [hdefiners, List.mem_filter, h.mem_iff, symbolsAt, symbolsAt, Dict.get?_erase]
    by_cases hu : uri = u
    · simp [hu]
    · simp [hu, Ne.symm hu]

theorem DefinitionsAgree.publish {symbols : Dict String (List SymbolDef)}
    {files : Dict Name (List String)} (h : DefinitionsAgree symbols files) (uri : String)
    (hgone : symbolsAt symbols uri = []) (new : List SymbolDef) :
    DefinitionsAgree (symbols.insert uri new) (new.foldl (addDefiner uri) files) := by
  refine ⟨h.distinct.insert uri new, fun name => (foldl_addDefiner uri new files h.ascending name).1,
    ?_⟩
  intro name u
  rw [(foldl_addDefiner uri new files h.ascending name).2, h.mem_iff, symbolsAt, symbolsAt,
    Dict.get?_insert]
  by_cases hu : uri = u
  · subst hu
    rw [symbolsAt] at hgone
    simp [hgone]
  · simp [hu, Ne.symm hu]

/-- The definitions of a name, up to order, from those of all files. -/
theorem DefinitionsAgree.named_perm {symbols : Dict String (List SymbolDef)}
    {files : Dict Name (List String)} (h : DefinitionsAgree symbols files) (name : Name)
    {us : List String} (hus : us.Nodup) (hcover : ∀ uri, symbolsAt symbols uri ≠ [] → uri ∈ us) :
    ((definersAt files name).flatMap fun uri => (symbolsAt symbols uri).filter (·.name = name)).Perm
      (us.flatMap fun uri => (symbolsAt symbols uri).filter (·.name = name)) := by
  apply Arrangement.flatMap_perm_of_support _ (nodup_of_ascending (h.ascending name)) hus
  intro uri huri
  obtain ⟨s, hs⟩ := List.exists_mem_of_ne_nil _ huri
  obtain ⟨hmem, hname⟩ := List.mem_filter.mp hs
  have hname : s.name = name := by simpa using hname
  rw [h.mem_iff]
  exact ⟨fun _ => hcover uri (List.ne_nil_of_mem hmem), fun _ => ⟨s, hmem, hname⟩⟩

end SqlAtlas.SymbolIndex
