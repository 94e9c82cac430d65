import SqlAtlas.Proofs.Index.Definers
import SqlAtlas.Proofs.Index.Operation
import SqlAtlas.Proofs.NameSet
import SqlAtlas.Proofs.Reference.Emission

/-!
# The maps of the index agree

The index stores the same facts several times: definitions by file and definers by name,
references by name and file, and the names that a file refers to. A correction may leave a name
listed for a file that has no reference to it any more, so that last list only bounds the names
from above. Every operation keeps all of this in agreement, and then all questions give answers
that fit together.
-/

namespace SqlAtlas.SymbolIndex

set_option autoImplicit false

open Text

def namesAt (names : Dict String NameSet) (uri : String) : NameSet := (names.get? uri).getD []

/-- References stand under their own name and file, and every name that a file refers to is listed
under the file. -/
structure ReferencesAgree (t : ReferenceTable) (names : Dict String NameSet) : Prop where
  compact : Compact t
  stored : ∀ {uri name r}, r ∈ referencesAt t uri name → r.name = name ∧ r.uri = uri
  listed : ∀ {uri name}, referencesAt t uri name ≠ [] → name ∈ namesAt names uri
  ascending : ∀ uri, NameSet.Ascending (namesAt names uri)

theorem referencesAgree_empty : ReferencesAgree {} {} where
  compact := compact_empty
  stored h := by cases h
  listed h := absurd rfl h
  ascending _ := NameSet.ascending_nil

/-- Leaving references out keeps the agreement. -/
theorem ReferencesAgree.shrink {t t' : ReferenceTable} {names : Dict String NameSet}
    (h : ReferencesAgree t names) (hcompact : Compact t')
    (hsub : ∀ uri name, referencesAt t' uri name ⊆ referencesAt t uri name) :
    ReferencesAgree t' names where
  compact := hcompact
  stored hr := h.stored (hsub _ _ hr)
  listed hne := by
    obtain ⟨r, hr⟩ := List.exists_mem_of_ne_nil _ hne
    exact h.listed (List.ne_nil_of_mem (hsub _ _ hr))
  ascending := h.ascending

theorem ReferencesAgree.referencesAt_purge {t : ReferenceTable} {names : Dict String NameSet}
    (h : ReferencesAgree t names) (uri uri' : String) (name : Name) :
    referencesAt ((namesAt names uri).foldl (fun t n => alterReferences t n uri fun _ => []) t) uri'
      name = if uri = uri' then [] else referencesAt t uri' name := by
  rw [referencesAt_foldl_purge]
  by_cases huri : uri = uri'
  · subst huri
    rw [if_pos rfl]
    split
    · rfl
    · rename_i hno
      by_contra hne
      exact hno ⟨rfl, h.listed hne⟩
  · rw [if_neg huri, if_neg fun hboth => huri hboth.1]

theorem ReferencesAgree.purge {t : ReferenceTable} {names : Dict String NameSet}
    (h : ReferencesAgree t names) (uri : String) :
    ReferencesAgree ((namesAt names uri).foldl (fun t n => alterReferences t n uri fun _ => []) t)
      (names.erase uri) := by
  have hsub : ∀ uri' name, referencesAt ((namesAt names uri).foldl
      (fun t n => alterReferences t n uri fun _ => []) t) uri' name ⊆ referencesAt t uri' name := by
    intro uri' name
    rw [h.referencesAt_purge]
    split
    · exact List.nil_subset _
    · exact List.Subset.refl _
  refine ⟨h.compact.foldl _ id uri _, fun hr => h.stored (hsub _ _ hr), ?_, ?_⟩
  · intro uri' name hne
    rw [h.referencesAt_purge] at hne
    split at hne
    · exact absurd rfl hne
    · rename_i huri
      rw [namesAt, Dict.get?_erase, if_neg huri]
      exact h.listed hne
  · intro uri'
    rw [namesAt, Dict.get?_erase]
    split
    · exact NameSet.ascending_nil
    · exact h.ascending uri'

theorem ReferencesAgree.publish {t : ReferenceTable} {names : Dict String NameSet}
    (h : ReferencesAgree t names) (uri : String) (refs : List Reference)
    (hrefs : ∀ r ∈ refs, r.uri = uri) :
    ReferencesAgree (refs.foldl (fun t r => alterReferences t r.name uri fun rs => rs ++ [r]) t)
      (names.insert uri (NameSet.insertAll (refs.map (·.name)) (namesAt names uri))) := by
  refine ⟨h.compact.foldl refs (·.name) uri _, ?_, ?_, ?_⟩
  · intro uri' name r hr
    rw [referencesAt_foldl_publish] at hr
    split at hr
    · rename_i huri
      rcases List.mem_append.mp hr with hr | hr
      · exact h.stored hr
      · obtain ⟨hr, hname⟩ := List.mem_filter.mp hr
        exact ⟨by simpa using hname, (hrefs r hr).trans huri⟩
    · exact h.stored hr
  · intro uri' name hne
    rw [referencesAt_foldl_publish] at hne
    rw [namesAt, Dict.get?_insert]
    split at hne
    · rename_i huri
      subst huri
      rw [if_pos rfl, Option.getD_some, NameSet.mem_insertAll]
      by_cases hold : referencesAt t uri name = []
      · rw [hold, List.nil_append] at hne
        obtain ⟨r, hr⟩ := List.exists_mem_of_ne_nil _ hne
        obtain ⟨hr, hname⟩ := List.mem_filter.mp hr
        exact .inl (List.mem_map.mpr ⟨r, hr, by simpa using hname⟩)
      · exact .inr (h.listed hold)
    · rename_i huri
      rw [if_neg huri]
      exact h.listed hne
  · intro uri'
    rw [namesAt, Dict.get?_insert]
    split
    · exact (h.ascending uri).insertAll _
    · exact h.ascending uri'

structure Consistent (x : SymbolIndex) : Prop where
  definitions : DefinitionsAgree x.symbolsByFile x.filesByName
  references : ReferencesAgree x.references x.namesByFile
  distinct : x.generations.Distinct
  indexed : ∀ uri, uri ∈ x.symbolsByFile.keys ↔ uri ∈ x.generations.keys
  referring : ∀ {uri name}, x.referencesTo uri name ≠ [] → uri ∈ x.generations.keys

theorem consistent_empty : Consistent {} where
  definitions := definitionsAgree_empty
  references := referencesAgree_empty
  distinct := Dict.distinct_empty
  indexed _ := Iff.rfl
  referring h := absurd rfl h

theorem Consistent.referencesTo_of_unknown {x : SymbolIndex} (h : Consistent x) {uri : String}
    (hunknown : x.generation? uri = none) (name : Name) : x.referencesTo uri name = [] := by
  by_contra hne
  exact (Dict.get?_eq_none_iff _ _).mp hunknown (h.referring hne)

/-! ### What each operation leaves -/

section

variable {x : SymbolIndex} (h : Consistent x)

include h

theorem Consistent.referencesTo_publishDefinitions (uri uri' : String) (symbols : List SymbolDef)
    (name : Name) : (x.publishDefinitions uri symbols).2.referencesTo uri' name =
      if uri = uri' then [] else x.referencesTo uri' name :=
  h.references.referencesAt_purge uri uri' name

theorem Consistent.referencesTo_removeFile (uri uri' : String) (name : Name) :
    (x.removeFile uri).referencesTo uri' name =
      if uri = uri' then [] else x.referencesTo uri' name :=
  h.references.referencesAt_purge uri uri' name

theorem Consistent.referencesTo_replaceFile (uri uri' : String) (text : List Char)
    (symbols : List SymbolDef) (scopes : FileScopes) (limit : Nat) (name : Name) :
    (x.replaceFile uri text symbols scopes limit).2.referencesTo uri' name =
      if uri = uri' then
        (x.replaceFile uri text symbols scopes limit).1.extracted.references.filter (·.name = name)
      else x.referencesTo uri' name := by
  have hpurged : referencesAt ((x.purge uri).addDefinitions uri symbols).references uri' name =
      if uri = uri' then [] else x.referencesTo uri' name :=
    h.references.referencesAt_purge uri uri' name
  refine (referencesAt_foldl_publish uri uri' name _ _).trans ?_
  rw [hpurged]
  split
  · rw [List.nil_append]
    rfl
  · rfl

theorem Consistent.define (uri : String) (symbols : List SymbolDef) :
    Consistent (x.publishDefinitions uri symbols).2 where
  definitions := (h.definitions.purge uri).publish uri (by
    rw [symbolsAt, Dict.get?_erase, if_pos rfl]
    rfl) symbols
  references := h.references.purge uri
  distinct := h.distinct.insert uri _
  indexed uri' := by
    refine Dict.mem_keys_insert.trans (Iff.trans ?_ Dict.mem_keys_insert.symm)
    change uri' = uri ∨ uri' ∈ (x.symbolsByFile.erase uri).keys ↔
      uri' = uri ∨ uri' ∈ x.generations.keys
    rw [Dict.mem_keys_erase, h.indexed]
    tauto
  referring {uri' name} hne := by
    rw [h.referencesTo_publishDefinitions] at hne
    split at hne
    · exact absurd rfl hne
    · exact Dict.mem_keys_insert.mpr (.inr (h.referring hne))

theorem Consistent.replace (uri : String) (text : List Char) (symbols : List SymbolDef)
    (scopes : FileScopes) (limit : Nat) :
    Consistent (x.replaceFile uri text symbols scopes limit).2 where
  definitions := (h.define uri symbols).definitions
  references := (h.references.purge uri).publish uri _ fun _ => uri_of_mem_extractReferences
  distinct := h.distinct.insert uri _
  indexed := (h.define uri symbols).indexed
  referring {uri' name} hne := by
    rw [h.referencesTo_replaceFile] at hne
    split at hne
    · rename_i huri
      exact Dict.mem_keys_insert.mpr (.inl huri.symm)
    · exact Dict.mem_keys_insert.mpr (.inr (h.referring hne))

theorem Consistent.remove (uri : String) : Consistent (x.removeFile uri) where
  definitions := h.definitions.purge uri
  references := h.references.purge uri
  distinct := h.distinct.erase uri
  indexed uri' := by
    refine Dict.mem_keys_erase.trans (Iff.trans ?_ Dict.mem_keys_erase.symm)
    exact and_congr_right fun _ => h.indexed uri'
  referring {uri' name} hne := by
    rw [h.referencesTo_removeFile] at hne
    split at hne
    · exact absurd rfl hne
    · rename_i huri
      exact Dict.mem_keys_erase.mpr ⟨Ne.symm huri, h.referring hne⟩

theorem Consistent.retractAll (uri : String) (place : Extent) (names : List Name) :
    Consistent (retractAll uri place names x) := by
  have hsub : ∀ uri' name, referencesAt (SymbolIndex.retractAll uri place names x).references uri'
      name ⊆ referencesAt x.references uri' name := by
    intro uri' name
    rw [← referencesTo_eq, referencesTo_retractAll]
    split
    · exact List.filter_sublist.subset
    · exact List.Subset.refl _
  have hagree := h.references.shrink (compact_retractAll h.references.compact uri place names) hsub
  rw [retractAll_references] at hsub ⊢
  exact ⟨h.definitions, hagree, h.distinct, h.indexed, fun {uri' name} hne => by
    obtain ⟨r, hr⟩ := List.exists_mem_of_ne_nil _ hne
    exact h.referring (List.ne_nil_of_mem (hsub uri' name hr))⟩

theorem Consistent.apply (op : IndexOperation) : Consistent (op.apply x) := by
  cases op with
  | define uri symbols => exact h.define uri symbols
  | replace uri text symbols scopes limit => exact h.replace uri text symbols scopes limit
  | remove uri => exact h.remove uri
  | correct uri generation place column keep provisional =>
    rw [IndexOperation.apply]
    rcases applyCorrection_cases x uri generation place column keep provisional with
      ⟨_, heq⟩ | ⟨_, _, heq⟩ | ⟨_, _, n, heq⟩
    · rw [heq]
      exact h
    · rw [heq]
      exact h
    · rw [heq]
      exact h.retractAll uri place _

end

theorem consistent_run (ops : List IndexOperation) : Consistent (IndexOperation.run {} ops) :=
  IndexOperation.run_induction (fun _ op h => h.apply op) {} ops consistent_empty

end SqlAtlas.SymbolIndex
