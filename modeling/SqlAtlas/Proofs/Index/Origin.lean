import SqlAtlas.Proofs.Index.Answers

/-!
# Where stored references come from

Replacing a file is the only operation that brings references in, and it brings in those that it
extracts from the file's text. All references of an index are therefore references of some
replacement, whatever was done before and after it.
-/

namespace SqlAtlas

set_option autoImplicit false

open Text Usage

/-- A reference that some operations extract from a file, with the emissions it is one of. -/
def Extracted (ops : List IndexOperation) (uri : String) (r : Reference) : Prop :=
  ∃ text symbols scopes limit catalog, IndexOperation.replace uri text symbols scopes limit ∈ ops ∧
    .reference r ∈ emissions (.ofText uri text scopes) catalog

theorem Extracted.mono {ops more : List IndexOperation} {uri : String} {r : Reference}
    (h : Extracted ops uri r) (hsub : ops ⊆ more) : Extracted more uri r := by
  obtain ⟨text, symbols, scopes, limit, catalog, hop, hr⟩ := h
  exact ⟨text, symbols, scopes, limit, catalog, hsub hop, hr⟩

namespace SymbolIndex

theorem Consistent.referencesTo_apply {x : SymbolIndex} (h : Consistent x) (op : IndexOperation)
    {uri : String} {name : Name} {r : Reference} (hr : r ∈ (op.apply x).referencesTo uri name) :
    r ∈ x.referencesTo uri name ∨ Extracted [op] uri r := by
  cases op with
  | define uri' symbols =>
    rw [IndexOperation.apply, h.referencesTo_publishDefinitions] at hr
    split at hr
    · cases hr
    · exact .inl hr
  | replace uri' text symbols scopes limit =>
    rw [IndexOperation.apply, h.referencesTo_replaceFile] at hr
    split at hr
    · rename_i huri
      subst huri
      have hcollected := collected_extractReferences uri' text scopes
        ((x.purge uri').addDefinitions uri' symbols).columns.hasColumn limit
      exact .inr ⟨text, symbols, scopes, limit, _, List.mem_singleton_self _,
        hcollected.emitted r (List.mem_of_mem_filter hr)⟩
    · exact .inl hr
  | remove uri' =>
    rw [IndexOperation.apply, h.referencesTo_removeFile] at hr
    split at hr
    · cases hr
    · exact .inl hr
  | correct uri' generation place column keep provisional =>
    left
    rw [IndexOperation.apply] at hr
    rcases applyCorrection_cases x uri' generation place column keep provisional with
      ⟨_, heq⟩ | ⟨_, _, heq⟩ | ⟨_, _, n, heq⟩
    · rwa [heq] at hr
    · rwa [heq] at hr
    · rw [heq, referencesTo_retractAll] at hr
      split at hr
      · exact List.mem_of_mem_filter hr
      · exact hr

theorem Consistent.referencesTo_run {x : SymbolIndex} (h : Consistent x) (ops : List IndexOperation)
    {uri : String} {name : Name} {r : Reference}
    (hr : r ∈ (IndexOperation.run x ops).referencesTo uri name) :
    r ∈ x.referencesTo uri name ∨ Extracted ops uri r := by
  induction ops generalizing x with
  | nil => exact .inl hr
  | cons op ops ih =>
    rcases ih (h.apply op) hr with hr | hr
    · rcases h.referencesTo_apply op hr with hr | hr
      · exact .inl hr
      · exact .inr (hr.mono (by simp))
    · exact .inr (hr.mono (List.subset_cons_self op ops))

theorem extracted_of_mem_referencesInFile {ops : List IndexOperation} {uri : String} {r : Reference}
    (hr : r ∈ (IndexOperation.run {} ops).referencesInFile uri) : Extracted ops uri r := by
  rw [(consistent_run ops).mem_referencesInFile] at hr
  rcases consistent_empty.referencesTo_run ops hr with hr | hr
  · cases hr
  · exact hr

theorem mem_getReferences_iff {ops : List IndexOperation} {name : Name} {r : Reference} :
    r ∈ (IndexOperation.run {} ops).getReferences name ↔
      r.name = name ∧ ∃ uri, r ∈ (IndexOperation.run {} ops).referencesInFile uri := by
  have h := consistent_run ops
  rw [(h.getReferences_perm name).mem_iff, List.mem_flatMap]
  constructor
  · rintro ⟨uri, _, hr⟩
    obtain ⟨rfl, rfl⟩ := h.references.stored hr
    exact ⟨rfl, r.uri, h.mem_referencesInFile.mpr hr⟩
  · rintro ⟨rfl, uri, hr⟩
    rw [h.mem_referencesInFile] at hr
    exact ⟨uri, h.mem_files_of_referencesTo r.name (List.ne_nil_of_mem hr), hr⟩

end SymbolIndex

end SqlAtlas
