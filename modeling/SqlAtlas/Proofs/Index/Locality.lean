import SqlAtlas.Proofs.Index.Consistency
import SqlAtlas.Proofs.Index.Generation
import SqlAtlas.Proofs.Registry

/-!
# Operations stay in their file

An operation on a file leaves what the index has of every other file, and the order of the other
files' contributions to each table. Whatever operations a file went through, replacing it then leads
to an index that differs from the one without them in nothing but numbers of generations.
-/

namespace SqlAtlas

set_option autoImplicit false

open Text ColumnRegistry

def IndexOperation.uri : IndexOperation → String
  | define uri _ => uri
  | replace uri .. => uri
  | remove uri => uri
  | correct uri .. => uri

namespace ColumnRegistry

theorem without_without (uri : String) (cs : List Contribution) :
    without uri (without uri cs) = without uri cs := by
  simp [without]

theorem Tidy.without_contributions_republish {r : ColumnRegistry} (h : Tidy r) (uri : String)
    (symbols : List SymbolDef) (table : Name) :
    without uri (((r.removeFile uri).addFile uri symbols).contributions table) =
      without uri (r.contributions table) := by
  rw [contributions_addFile, h.contributions_removeFile]
  cases tableDefinition? table symbols with
  | none => exact without_without uri _
  | some s =>
    have hlast := without_concat (contribution uri s) (without uri (r.contributions table))
    rw [contribution] at hlast
    exact hlast.trans (without_without uri _)

end ColumnRegistry

namespace SymbolIndex

structure SameElsewhere (uri : String) (x y : SymbolIndex) : Prop where
  symbols : ∀ {v}, v ≠ uri → x.symbolsByFile.get? v = y.symbolsByFile.get? v
  references : ∀ {v}, v ≠ uri → ∀ name, x.referencesTo v name = y.referencesTo v name
  aliases : ∀ {v}, v ≠ uri → x.aliasesForFile? v = y.aliasesForFile? v
  generations : ∀ {v}, v ≠ uri → x.generation? v = y.generation? v
  contributions : ∀ table,
    without uri (x.columns.contributions table) = without uri (y.columns.contributions table)

theorem SameElsewhere.refl (uri : String) (x : SymbolIndex) : SameElsewhere uri x x :=
  ⟨fun _ => rfl, fun _ _ => rfl, fun _ => rfl, fun _ => rfl, fun _ => rfl⟩

theorem SameElsewhere.trans {uri : String} {x y z : SymbolIndex} (h : SameElsewhere uri x y)
    (h' : SameElsewhere uri y z) : SameElsewhere uri x z where
  symbols hv := (h.symbols hv).trans (h'.symbols hv)
  references hv name := (h.references hv name).trans (h'.references hv name)
  aliases hv := (h.aliases hv).trans (h'.aliases hv)
  generations hv := (h.generations hv).trans (h'.generations hv)
  contributions table := (h.contributions table).trans (h'.contributions table)

theorem tidy_apply {x : SymbolIndex} (h : x.columns.Tidy) (op : IndexOperation) :
    (op.apply x).columns.Tidy := by
  cases op with
  | define uri symbols => exact (h.removeFile uri).addFile uri symbols
  | replace uri text symbols scopes limit => exact (h.removeFile uri).addFile uri symbols
  | remove uri => exact h.removeFile uri
  | correct uri generation place column keep provisional =>
    rw [IndexOperation.apply, applyCorrection_references]
    exact h

section

variable {x : SymbolIndex} (h : Consistent x) (htidy : x.columns.Tidy)

include h htidy

theorem Consistent.sameElsewhere_define (uri : String) (symbols : List SymbolDef) :
    SameElsewhere uri (x.publishDefinitions uri symbols).2 x where
  symbols {v} hv := (x.symbolsByFile.get?_insert_erase uri v symbols).trans (if_neg hv.symm)
  references {v} hv name := by rw [h.referencesTo_publishDefinitions, if_neg hv.symm]
  aliases {v} hv := by
    change (x.aliasesByFile.erase uri).get? v = _
    rw [Dict.get?_erase, if_neg hv.symm]
    rfl
  generations {v} hv := by rw [generation?_publishDefinitions, if_neg hv.symm]
  contributions := htidy.without_contributions_republish uri symbols

theorem Consistent.sameElsewhere_replace (uri : String) (text : List Char)
    (symbols : List SymbolDef) (scopes : FileScopes) (limit : Nat) :
    SameElsewhere uri (x.replaceFile uri text symbols scopes limit).2 x where
  symbols := (h.sameElsewhere_define htidy uri symbols).symbols
  references {v} hv name := by rw [h.referencesTo_replaceFile, if_neg hv.symm]
  aliases {v} hv :=
    (x.aliasesByFile.get?_insert_erase uri v scopes.aliases).trans (if_neg hv.symm)
  generations {v} hv := by rw [generation?_replaceFile, if_neg hv.symm]
  contributions := htidy.without_contributions_republish uri symbols

theorem Consistent.sameElsewhere_remove (uri : String) : SameElsewhere uri (x.removeFile uri) x where
  symbols {v} hv := by
    change (x.symbolsByFile.erase uri).get? v = _
    rw [Dict.get?_erase, if_neg hv.symm]
  references {v} hv name := by rw [h.referencesTo_removeFile, if_neg hv.symm]
  aliases {v} hv := by
    change (x.aliasesByFile.erase uri).get? v = _
    rw [Dict.get?_erase, if_neg hv.symm]
    rfl
  generations {v} hv := by rw [generation?_removeFile, if_neg hv.symm]
  contributions table := by
    change without uri ((x.columns.removeFile uri).contributions table) = _
    rw [htidy.contributions_removeFile, without_without]

omit h htidy in
theorem sameElsewhere_retractAll (uri : String) (place : Extent) (names : List Name) :
    SameElsewhere uri (retractAll uri place names x) x := by
  have hreferences : ∀ {v}, v ≠ uri → ∀ name,
      (retractAll uri place names x).referencesTo v name = x.referencesTo v name := by
    intro v hv name
    rw [referencesTo_retractAll, if_neg fun hboth => hv hboth.1.symm]
  rw [retractAll_references] at hreferences ⊢
  exact ⟨fun _ => rfl, hreferences, fun _ => rfl, fun _ => rfl, fun _ => rfl⟩

theorem Consistent.sameElsewhere_apply (op : IndexOperation) :
    SameElsewhere op.uri (op.apply x) x := by
  cases op with
  | define uri symbols => exact h.sameElsewhere_define htidy uri symbols
  | replace uri text symbols scopes limit =>
    exact h.sameElsewhere_replace htidy uri text symbols scopes limit
  | remove uri => exact h.sameElsewhere_remove htidy uri
  | correct uri generation place column keep provisional =>
    rw [IndexOperation.apply]
    rcases applyCorrection_cases x uri generation place column keep provisional with
      ⟨_, heq⟩ | ⟨_, _, heq⟩ | ⟨_, _, n, heq⟩
    · rw [heq]
      exact .refl uri x
    · rw [heq]
      exact .refl uri x
    · rw [heq]
      exact sameElsewhere_retractAll uri place _

theorem Consistent.sameElsewhere_run {uri : String} {ops : List IndexOperation}
    (hops : ∀ op ∈ ops, op.uri = uri) : SameElsewhere uri (IndexOperation.run x ops) x := by
  induction ops generalizing x with
  | nil => exact .refl uri x
  | cons op ops ih =>
    have hfirst := h.sameElsewhere_apply htidy op
    rw [hops op List.mem_cons_self] at hfirst
    exact (ih (h.apply op) (tidy_apply htidy op)
      fun op hop => hops op (List.mem_cons_of_mem _ hop)).trans hfirst

end

/-! ### Replacing a file -/

/-- Two indexes have the same of all files, but for the numbers of their generations. -/
structure Alike (x y : SymbolIndex) : Prop where
  symbols : ∀ uri, x.symbolsByFile.get? uri = y.symbolsByFile.get? uri
  references : ∀ uri name, x.referencesTo uri name = y.referencesTo uri name
  aliases : ∀ uri, x.aliasesForFile? uri = y.aliasesForFile? uri
  indexed : ∀ uri, (x.generation? uri).isSome = (y.generation? uri).isSome
  contributions : ∀ table, x.columns.contributions table = y.columns.contributions table

section

variable {x y : SymbolIndex} {uri : String} (h : SameElsewhere uri x y) (hx : Consistent x)
  (hy : Consistent y) (htidy : x.columns.Tidy) (htidy' : y.columns.Tidy)

include h htidy htidy'

theorem SameElsewhere.contributions_republish (symbols : List SymbolDef) (table : Name) :
    ((x.columns.removeFile uri).addFile uri symbols).contributions table =
      ((y.columns.removeFile uri).addFile uri symbols).contributions table := by
  rw [contributions_addFile, contributions_addFile, htidy.contributions_removeFile,
    htidy'.contributions_removeFile, h.contributions]

/-- The references of a file are found with the same columns. -/
theorem SameElsewhere.extracted_replaceFile (text : List Char) (symbols : List SymbolDef)
    (scopes : FileScopes) (limit : Nat) :
    (x.replaceFile uri text symbols scopes limit).1.extracted =
      (y.replaceFile uri text symbols scopes limit).1.extracted := by
  have hcatalog : ((x.columns.removeFile uri).addFile uri symbols).hasColumn =
      ((y.columns.removeFile uri).addFile uri symbols).hasColumn := by
    funext table column
    rw [hasColumn, hasColumn, columns?_eq, columns?_eq,
      h.contributions_republish htidy htidy' symbols table]
  exact congrArg (extractReferences uri text scopes · limit) hcatalog

include hx hy

theorem SameElsewhere.alike_replaceFile (text : List Char) (symbols : List SymbolDef)
    (scopes : FileScopes) (limit : Nat) :
    Alike (x.replaceFile uri text symbols scopes limit).2
      (y.replaceFile uri text symbols scopes limit).2 where
  symbols v := by
    change ((x.symbolsByFile.erase uri).insert uri symbols).get? v =
      ((y.symbolsByFile.erase uri).insert uri symbols).get? v
    rw [Dict.get?_insert_erase, Dict.get?_insert_erase]
    by_cases hv : uri = v
    · rw [if_pos hv, if_pos hv]
    · rw [if_neg hv, if_neg hv, h.symbols (Ne.symm hv)]
  references v name := by
    rw [hx.referencesTo_replaceFile, hy.referencesTo_replaceFile,
      h.extracted_replaceFile htidy htidy']
    by_cases hv : uri = v
    · rw [if_pos hv, if_pos hv]
    · rw [if_neg hv, if_neg hv, h.references (Ne.symm hv)]
  aliases v := by
    change ((x.aliasesByFile.erase uri).insert uri scopes.aliases).get? v =
      ((y.aliasesByFile.erase uri).insert uri scopes.aliases).get? v
    rw [Dict.get?_insert_erase, Dict.get?_insert_erase]
    by_cases hv : uri = v
    · rw [if_pos hv, if_pos hv]
    · rw [if_neg hv, if_neg hv]
      exact h.aliases (Ne.symm hv)
  indexed v := by
    rw [generation?_replaceFile, generation?_replaceFile]
    by_cases hv : uri = v
    · rw [if_pos hv, if_pos hv]
      rfl
    · rw [if_neg hv, if_neg hv, h.generations (Ne.symm hv)]
  contributions := h.contributions_republish htidy htidy' symbols

end

end SymbolIndex

end SqlAtlas
