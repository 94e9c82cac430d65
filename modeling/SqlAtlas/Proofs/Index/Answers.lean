import Mathlib.Algebra.GroupWithZero.Nat
import SqlAtlas.Proofs.Index.Consistency
import SqlAtlas.Proofs.Index.Order

/-!
# Answers that fit together

What the index answers about a name, about a file and about everything is read off different maps.
Since the maps agree, the answers about a name and the counts are those that the answers about
files add up to.
-/

namespace SqlAtlas.SymbolIndex

set_option autoImplicit false

open Text

section

variable {x : SymbolIndex} (h : Consistent x)

include h

/-! ### References to a name -/

theorem Consistent.mem_files_of_referencesTo {uri : String} (name : Name)
    (hne : x.referencesTo uri name ≠ []) : uri ∈ x.files :=
  (mem_files_iff x uri).mpr (h.referring hne)

theorem Consistent.row_perm (name : Name) :
    (((x.references.get? name).map (·.values)).getD []).flatten.Perm
      (x.files.flatMap fun uri => x.referencesTo uri name) := by
  cases hrow : x.references.get? name with
  | none =>
    have hnone : ∀ uri, x.referencesTo uri name = [] := by
      intro uri
      rw [referencesTo, hrow]
      rfl
    simp [hnone]
  | some row =>
    have hcell : ∀ uri, x.referencesTo uri name = (row.get? uri).getD [] := by
      intro uri
      rw [referencesTo, hrow]
      rfl
    simp only [hcell, Option.map_some, Option.getD_some]
    apply (h.references.compact.row_distinct hrow).values_flatten_perm
      (nodup_of_ascending (files_ascending x))
    intro uri huri
    obtain ⟨rs, hrs⟩ := Option.isSome_iff_exists.mp ((Dict.mem_keys_iff row uri).mp huri)
    apply h.mem_files_of_referencesTo name
    rw [hcell, hrs]
    rintro rfl
    exact h.references.compact.cell_nonempty hrow uri hrs

theorem Consistent.getReferences_perm (name : Name) :
    (x.getReferences name).Perm (x.files.flatMap fun uri => x.referencesTo uri name) :=
  (List.mergeSort_perm _ _).trans (h.row_perm name)

/-- Among the references to a name, those of one file stand as they stand in the file. -/
theorem Consistent.getReferences_filter_uri (name : Name) (uri : String) :
    (x.getReferences name).filter (·.uri = uri) = x.getReferencesInFile name uri := by
  have htrans : ∀ a b c : Reference, a.location.upTo b.location = true →
      b.location.upTo c.location = true → a.location.upTo c.location = true :=
    fun a b c => Location.upTo_trans a.location b.location c.location
  have htotal : ∀ a b : Reference, (a.location.upTo b.location || b.location.upTo a.location) = true :=
    fun a b => Location.upTo_total a.location b.location
  have hfound : ((((x.references.get? name).map (·.values)).getD []).flatten).filter (·.uri = uri) =
      x.referencesTo uri name := by
    cases hrow : x.references.get? name with
    | none =>
      rw [referencesTo, hrow]
      rfl
    | some row =>
      have hdistinct := h.references.compact.row_distinct hrow
      have hfile : ∀ u, ((row.get? u).getD []).filter (·.uri = uri) =
          if u = uri then (row.get? u).getD [] else [] := by
        intro u
        have huri : ∀ r ∈ (row.get? u).getD [], r.uri = u := by
          intro r hr
          have hstored : r ∈ referencesAt x.references u name := by
            rw [referencesAt, hrow]
            exact hr
          exact (h.references.stored hstored).2
        split
        · rename_i hu
          exact List.filter_eq_self.mpr fun r hr => by simpa [hu] using huri r hr
        · rename_i hu
          exact List.filter_eq_nil_iff.mpr fun r hr => by simpa [huri r hr] using hu
      rw [Option.map_some, Option.getD_some, hdistinct.values_eq, Dict.flatten_filterMap_get?,
        List.filter_flatMap]
      simp only [hfile]
      rw [Arrangement.flatMap_single _ hdistinct, referencesTo, hrow, Option.bind_some]
      split
      · rfl
      · rename_i hout
        rw [(Dict.get?_eq_none_iff row uri).mpr hout]
        rfl
  rw [getReferences, Arrangement.filter_mergeSort htrans htotal, hfound, getReferencesInFile]
  apply Arrangement.mergeSort_congr htrans htotal
    (fun a b c => Extent.upTo_trans a.place b.place c.place)
    (fun a b => Extent.upTo_total a.place b.place)
  intro a ha b hb
  rw [Location.upTo, if_neg]
  · rfl
  · exact not_not_intro ((h.references.stored ha).2.trans (h.references.stored hb).2.symm)

/-! ### References of a file -/

theorem Consistent.mem_referencesInFile {uri : String} {r : Reference} :
    r ∈ x.referencesInFile uri ↔ r ∈ x.referencesTo uri r.name := by
  rw [referencesInFile, List.mem_mergeSort, List.mem_flatMap]
  constructor
  · rintro ⟨name, _, hr⟩
    rwa [(h.references.stored hr).1]
  · intro hr
    exact ⟨r.name, h.references.listed (List.ne_nil_of_mem hr), hr⟩

theorem Consistent.referencesInFile_filter_perm (uri : String) (name : Name) :
    ((x.referencesInFile uri).filter (·.name = name)).Perm (x.referencesTo uri name) := by
  have hname : ∀ n, (x.referencesTo uri n).filter (·.name = name) =
      if n = name then x.referencesTo uri n else [] := by
    intro n
    split
    · rename_i hn
      exact List.filter_eq_self.mpr fun r hr => by simpa [hn] using (h.references.stored hr).1
    · rename_i hn
      exact List.filter_eq_nil_iff.mpr fun r hr => by simpa [(h.references.stored hr).1] using hn
  refine ((List.mergeSort_perm _ _).filter _).trans ?_
  change ((((namesAt x.namesByFile uri).flatMap (x.referencesTo uri))).filter _).Perm _
  rw [List.filter_flatMap]
  simp only [hname]
  rw [Arrangement.flatMap_single _ (h.references.ascending uri).nodup]
  split
  · exact List.Perm.refl _
  · rename_i hout
    rw [show x.referencesTo uri name = [] from not_not.mp (mt h.references.listed hout)]

theorem Consistent.allReferences_perm :
    (x.references.values.flatMap (·.values)).flatten.Perm (x.files.flatMap x.referencesInFile) := by
  have hrows : (x.references.values.flatMap (·.values)).flatten = x.references.keys.flatMap
      fun name => (((x.references.get? name).map (·.values)).getD []).flatten := by
    rw [h.references.compact.distinct.values_eq]
    induction x.references.keys with
    | nil => rfl
    | cons name names ih =>
      rw [List.flatMap_cons]
      cases hrow : x.references.get? name with
      | none =>
        rw [List.filterMap_cons_none hrow, ih]
        rfl
      | some row =>
        rw [List.filterMap_cons_some hrow, List.flatMap_cons, List.flatten_append, ih]
        rfl
  have hfile : ∀ uri ∈ x.files, (x.references.keys.flatMap fun name => x.referencesTo uri name).Perm
      (x.referencesInFile uri) := by
    intro uri _
    refine List.Perm.trans ?_ (List.mergeSort_perm _ _).symm
    apply Arrangement.flatMap_perm_of_support _ h.references.compact.distinct
      (h.references.ascending uri).nodup
    intro name hne
    exact ⟨fun _ => h.references.listed hne,
      fun _ => (h.references.compact.mem_keys_iff name).mpr ⟨uri, hne⟩⟩
  rw [hrows]
  calc
    (x.references.keys.flatMap
        fun name => (((x.references.get? name).map (·.values)).getD []).flatten).Perm
        (x.references.keys.flatMap fun name => x.files.flatMap fun uri => x.referencesTo uri name) :=
      List.Perm.flatMap_left _ fun name _ => h.row_perm name
    List.Perm _ (x.files.flatMap fun uri => x.references.keys.flatMap fun name =>
        x.referencesTo uri name) :=
      Arrangement.flatMap_comm_perm _ _ _
    List.Perm _ (x.files.flatMap x.referencesInFile) := List.Perm.flatMap_left _ hfile

/-! ### Definitions -/

theorem Consistent.mem_files_of_symbols {uri : String}
    (hne : symbolsAt x.symbolsByFile uri ≠ []) : uri ∈ x.files := by
  rw [mem_files_iff, ← h.indexed, Dict.mem_keys_iff]
  cases hs : x.symbolsByFile.get? uri with
  | none =>
    rw [symbolsAt, hs] at hne
    exact absurd rfl hne
  | some symbols => rfl

theorem Consistent.findDefinitions_perm (name : Name) : (x.findDefinitions name).Perm
    (x.files.flatMap fun uri => (x.symbolsInFile uri).filter (·.name = name)) :=
  (List.mergeSort_perm _ _).trans (h.definitions.named_perm name
    (nodup_of_ascending (files_ascending x)) fun _ => h.mem_files_of_symbols)

theorem Consistent.symbols_perm : x.symbols.Perm (x.files.flatMap x.symbolsInFile) := by
  apply h.definitions.distinct.values_flatten_perm (nodup_of_ascending (files_ascending x))
  intro uri huri
  rwa [mem_files_iff, ← h.indexed]

/-! ### Counts -/

theorem Consistent.stats_references : x.stats.references =
    (x.files.map fun uri => (x.referencesInFile uri).length).sum := by
  have hsum : ∀ (rows : List (List Reference)) (n : Nat),
      rows.foldl (fun n rs => n + rs.length) n = n + rows.flatten.length := by
    intro rows
    induction rows with
    | nil => simp
    | cons rs rows ih =>
      intro n
      rw [List.foldl_cons, ih, List.flatten_cons, List.length_append, Nat.add_assoc]
  rw [stats, hsum, Nat.zero_add, h.allReferences_perm.length_eq, List.length_flatMap]

theorem Consistent.stats_symbols : x.stats.symbols =
    (x.files.map fun uri => (x.symbolsInFile uri).length).sum := by
  rw [stats, h.symbols_perm.length_eq, List.length_flatMap]

theorem Consistent.stats_files : x.stats.files = x.files.length := by
  rw [(files_perm_keys h.distinct).length_eq, Dict.keys, List.length_map]
  rfl

theorem Consistent.stats_referenceNames : x.stats.referenceNames =
    ((x.files.flatMap x.referencesInFile).map (·.name)).dedup.length := by
  have hkeys : x.references.keys.Perm ((x.files.flatMap x.referencesInFile).map (·.name)).dedup := by
    rw [List.perm_ext_iff_of_nodup h.references.compact.distinct (List.nodup_dedup _)]
    intro name
    rw [h.references.compact.mem_keys_iff, List.mem_dedup, List.mem_map]
    constructor
    · rintro ⟨uri, hne⟩
      obtain ⟨r, hr⟩ := List.exists_mem_of_ne_nil _ hne
      have hname : r.name = name := (h.references.stored hr).1
      subst hname
      exact ⟨r, List.mem_flatMap.mpr
        ⟨uri, h.mem_files_of_referencesTo _ hne, h.mem_referencesInFile.mpr hr⟩, rfl⟩
    · rintro ⟨r, hr, rfl⟩
      obtain ⟨uri, _, hr⟩ := List.mem_flatMap.mp hr
      exact ⟨uri, List.ne_nil_of_mem (h.mem_referencesInFile.mp hr)⟩
  rw [← hkeys.length_eq, Dict.keys, List.length_map]
  rfl

end

/-- In every index that operations lead to, what is answered about a name is what is answered about
all files, restricted to that name, and the counts are those of the answers about files. -/
theorem answers_agree (ops : List IndexOperation) (query : String) :
    let x := IndexOperation.run {} ops
    let name := Name.ofText query
    (x.getReferences name).Perm
        (x.files.flatMap fun uri => (x.referencesInFile uri).filter (·.name = name)) ∧
      (∀ uri, (x.getReferences name).filter (·.uri = uri) = x.getReferencesInFile name uri) ∧
      (x.findDefinitions name).Perm
        (x.files.flatMap fun uri => (x.symbolsInFile uri).filter (·.name = name)) ∧
      x.stats.references = (x.files.map fun uri => (x.referencesInFile uri).length).sum ∧
      x.stats.symbols = (x.files.map fun uri => (x.symbolsInFile uri).length).sum ∧
      x.stats.files = x.files.length ∧
      x.stats.referenceNames =
        ((x.files.flatMap x.referencesInFile).map (·.name)).dedup.length := by
  intro x name
  have h : Consistent x := consistent_run ops
  refine ⟨?_, h.getReferences_filter_uri name, h.findDefinitions_perm name, h.stats_references,
    h.stats_symbols, h.stats_files, h.stats_referenceNames⟩
  exact (h.getReferences_perm name).trans
    (List.Perm.flatMap_left _ fun uri _ => (h.referencesInFile_filter_perm uri name).symm)

end SqlAtlas.SymbolIndex
