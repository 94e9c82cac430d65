import SqlAtlas.Definition
import SqlAtlas.Proofs.Index.Definers
import SqlAtlas.Proofs.Index.Operation
import SqlAtlas.Proofs.Registry

/-!
# Columns by the latest definition

The operations alone say which files are indexed, and which of them came in last. The columns of a
table are those of its last definition in the file that came in last among the files that define it.
Files without such a definition have no say, so that removing the last definer brings the one before
it back, and routines hide nothing.
-/

namespace SqlAtlas

set_option autoImplicit false

open Text

namespace IndexOperation

def arrange (files : List (String × List SymbolDef)) :
    IndexOperation → List (String × List SymbolDef)
  | define uri symbols => files.filter (fun f => decide (f.1 ≠ uri)) ++ [(uri, symbols)]
  | replace uri _ symbols _ _ => files.filter (fun f => decide (f.1 ≠ uri)) ++ [(uri, symbols)]
  | remove uri => files.filter fun f => decide (f.1 ≠ uri)
  | correct .. => files

/-- The files that are indexed after some operations, with their definitions, in the order in which
they were last published. -/
def indexed (ops : List IndexOperation) : List (String × List SymbolDef) := ops.foldl arrange []

end IndexOperation

/-- The definition that gives a table its columns: that of the last file that has one. -/
def latestDefinition? (table : Name) (files : List (String × List SymbolDef)) : Option SymbolDef :=
  (files.filterMap fun f => tableDefinition? table f.2).getLast?

namespace SymbolIndex

open ColumnRegistry

def contributionsOf (table : Name) (files : List (String × List SymbolDef)) : List Contribution :=
  files.filterMap fun f => (tableDefinition? table f.2).map (contribution f.1)

theorem without_contributionsOf (uri : String) (table : Name)
    (files : List (String × List SymbolDef)) : without uri (contributionsOf table files) =
      contributionsOf table (files.filter fun f => decide (f.1 ≠ uri)) := by
  rw [without, contributionsOf, contributionsOf, List.filter_filterMap, List.filterMap_filter]
  apply List.filterMap_congr
  intro f _
  cases tableDefinition? table f.2 with
  | none => simp
  | some s =>
    by_cases hf : f.1 = uri
    · simp [hf, contribution]
    · simp [hf, contribution]

theorem contributionsOf_concat (table : Name) (files : List (String × List SymbolDef)) (uri : String)
    (symbols : List SymbolDef) : contributionsOf table (files ++ [(uri, symbols)]) =
      contributionsOf table files ++
        ((tableDefinition? table symbols).map (contribution uri)).toList := by
  rw [contributionsOf, contributionsOf, List.filterMap_append]
  cases hdef : tableDefinition? table symbols <;> simp [hdef]

structure Holds (x : SymbolIndex) (files : List (String × List SymbolDef)) : Prop where
  distinct : (files.map (·.1)).Nodup
  indexed : ∀ uri, uri ∈ x.generations.keys ↔ uri ∈ files.map (·.1)
  symbols : ∀ f ∈ files, x.symbolsInFile f.1 = f.2
  tidy : x.columns.Tidy
  contributions : ∀ table, x.columns.contributions table = contributionsOf table files

theorem holds_empty : Holds {} [] where
  distinct := List.nodup_nil
  indexed _ := Iff.rfl
  symbols _ hf := by cases hf
  tidy := tidy_empty
  contributions _ := rfl

section

variable {x y : SymbolIndex} {files : List (String × List SymbolDef)} (h : Holds x files)
  (uri : String)

include h

theorem Holds.publish (symbols : List SymbolDef)
    (hsymbols : y.symbolsByFile = (x.symbolsByFile.erase uri).insert uri symbols)
    (hcolumns : y.columns = (x.columns.removeFile uri).addFile uri symbols)
    (hgenerations : y.generations = x.generations.insert uri (x.lastGeneration + 1)) :
    Holds y (files.filter (fun f => decide (f.1 ≠ uri)) ++ [(uri, symbols)]) := by
  have hother : ∀ f ∈ files.filter (fun f => decide (f.1 ≠ uri)), f ∈ files ∧ f.1 ≠ uri := by
    intro f hf
    obtain ⟨hf, hne⟩ := List.mem_filter.mp hf
    exact ⟨hf, by simpa using hne⟩
  refine ⟨?_, ?_, ?_, ?_, ?_⟩
  · rw [List.map_append, List.nodup_append]
    refine ⟨h.distinct.sublist (List.filter_sublist.map _), List.nodup_singleton _, ?_⟩
    rintro u hu v hv rfl
    obtain ⟨f, hf, rfl⟩ := List.mem_map.mp hu
    exact (hother f hf).2 (List.mem_singleton.mp hv)
  · intro v
    rw [hgenerations, Dict.mem_keys_insert, h.indexed, List.map_append, List.mem_append]
    by_cases hv : v = uri
    · simp [hv]
    · simp [hv]
  · intro f hf
    rw [symbolsInFile, hsymbols, Dict.get?_insert_erase]
    rcases List.mem_append.mp hf with hf | hf
    · obtain ⟨hf, hne⟩ := hother f hf
      rw [if_neg hne.symm]
      exact h.symbols f hf
    · rw [List.mem_singleton.mp hf, if_pos rfl]
      rfl
  · rw [hcolumns]
    exact (h.tidy.removeFile uri).addFile uri symbols
  · intro table
    rw [hcolumns, contributions_addFile, h.tidy.contributions_removeFile, h.contributions,
      contributionsOf_concat, without_contributionsOf]
    cases tableDefinition? table symbols with
    | none => exact (List.append_nil _).symm
    | some s =>
      rw [without_contributionsOf, List.filter_filter]
      simp

theorem Holds.remove : Holds (x.removeFile uri) (files.filter fun f => decide (f.1 ≠ uri)) := by
  refine ⟨h.distinct.sublist (List.filter_sublist.map _), ?_, ?_, h.tidy.removeFile uri, ?_⟩
  · intro v
    refine Dict.mem_keys_erase.trans ?_
    change v ≠ uri ∧ v ∈ x.generations.keys ↔ _
    rw [h.indexed]
    by_cases hv : v = uri
    · simp [hv]
    · simp [hv]
  · intro f hf
    obtain ⟨hf, hne⟩ := List.mem_filter.mp hf
    have hne : uri ≠ f.1 := Ne.symm (by simpa using hne)
    change ((x.symbolsByFile.erase uri).get? f.1).getD [] = f.2
    rw [Dict.get?_erase, if_neg hne]
    exact h.symbols f hf
  · intro table
    rw [← without_contributionsOf, ← h.contributions]
    exact h.tidy.contributions_removeFile uri table

omit uri in
theorem Holds.apply (op : IndexOperation) : Holds (op.apply x) (op.arrange files) := by
  cases op with
  | define uri symbols => exact h.publish uri symbols rfl rfl rfl
  | replace uri text symbols scopes limit => exact h.publish uri symbols rfl rfl rfl
  | remove uri => exact h.remove uri
  | correct uri generation place column keep provisional =>
    rw [IndexOperation.apply, applyCorrection_references]
    exact ⟨h.distinct, h.indexed, h.symbols, h.tidy, h.contributions⟩

/-! ### The answers -/

omit uri in
theorem Holds.columnsForTable (table : Name) : x.columnsForTable table =
    ((latestDefinition? table files).map SymbolDef.columnNames).getD [] := by
  have hcolumns : (contributionsOf table files).map (·.columns) =
      (files.filterMap fun f => tableDefinition? table f.2).map SymbolDef.columnNames := by
    rw [contributionsOf, List.map_filterMap, List.map_filterMap]
    apply List.filterMap_congr
    intro f _
    cases tableDefinition? table f.2 <;> rfl
  rw [SymbolIndex.columnsForTable, columns?_eq, h.contributions, ← List.getLast?_map, hcolumns,
    List.getLast?_map]
  rfl

end

end SymbolIndex

end SqlAtlas
