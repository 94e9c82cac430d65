import SqlAtlas.Proofs.Index.Columns
import SqlAtlas.Proofs.Index.Reindexing

/-!
# Indexes of exactly some files

What an index knows when it has certain files and nothing of any other, kept by every operation.
The order of the files decides which contribution to a table is the latest, and a file may move
behind those that do not define the same tables.
-/

namespace SqlAtlas

set_option autoImplicit false

open ColumnRegistry

/-! ### Contributions in another order -/

namespace SymbolIndex

theorem contributionsOf_append (table : Name) (files more : List (String × List SymbolDef)) :
    contributionsOf table (files ++ more) =
      contributionsOf table files ++ contributionsOf table more :=
  List.filterMap_append

theorem contributionsOf_eq_nil {table : Name} {files : List (String × List SymbolDef)}
    (h : ∀ f ∈ files, tableDefinition? table f.2 = none) : contributionsOf table files = [] := by
  refine List.filterMap_eq_nil_iff.mpr fun f hf => ?_
  rw [h f hf]
  rfl

theorem contributionsOf_filter {table : Name} {files : List (String × List SymbolDef)}
    {p : String × List SymbolDef → Bool}
    (h : ∀ f ∈ files, p f = false → tableDefinition? table f.2 = none) :
    contributionsOf table (files.filter p) = contributionsOf table files := by
  rw [contributionsOf, contributionsOf, List.filterMap_filter]
  apply List.filterMap_congr
  intro f hf
  cases hp : p f with
  | true => rfl
  | false => simp [h f hf hp]

theorem contributionsOf_move {table : Name} {before after : List (String × List SymbolDef)}
    {f : String × List SymbolDef}
    (h : ∀ g ∈ after, tableDefinition? table f.2 = none ∨ tableDefinition? table g.2 = none) :
    contributionsOf table (before ++ after ++ [f]) = contributionsOf table (before ++ f :: after) := by
  have hswap : contributionsOf table (after ++ [f]) = contributionsOf table ([f] ++ after) := by
    rw [contributionsOf_append, contributionsOf_append]
    by_cases hf : tableDefinition? table f.2 = none
    · have hnone : contributionsOf table [f] = [] := contributionsOf_eq_nil (by simpa using hf)
      rw [hnone, List.append_nil, List.nil_append]
    · have hnone : contributionsOf table after = [] :=
        contributionsOf_eq_nil fun g hg => (h g hg).resolve_left hf
      rw [hnone, List.append_nil, List.nil_append]
  rw [List.append_assoc, contributionsOf_append, hswap, ← contributionsOf_append]
  rfl

/-- Where at most one file defines a table, the order of the files does not matter. -/
theorem contributionsOf_perm {table : Name} {files files' : List (String × List SymbolDef)}
    (hperm : files.Perm files') (hnodup : files.Nodup)
    (hone : ∀ f ∈ files, ∀ g ∈ files, f ≠ g →
      tableDefinition? table f.2 = none ∨ tableDefinition? table g.2 = none) :
    contributionsOf table files = contributionsOf table files' := by
  have hsole : (contributionsOf table files).Pairwise fun _ _ => False := by
    rw [contributionsOf, List.pairwise_filterMap]
    refine List.Pairwise.imp_of_mem (fun {f g} hf hg hne => ?_) hnodup
    intro c hc d hd
    rcases hone f hf g hg hne with hnone | hnone
    · simp [hnone] at hc
    · simp [hnone] at hd
  have hcontributions := hperm.filterMap fun f =>
    (tableDefinition? table f.2).map (contribution f.1)
  exact hcontributions.eq_of_pairwise (fun _ _ _ _ h => h.elim) hsole
    (hsole.perm hcontributions fun h => h)

theorem hasColumn_congr {r r' : ColumnRegistry}
    (h : ∀ table, r.contributions table = r'.contributions table) : r.hasColumn = r'.hasColumn := by
  funext table column
  rw [hasColumn, hasColumn, columns?_eq, columns?_eq, h]

/-- In a list where every file stands once, all others are left without a file. -/
theorem filter_ne_of_nodup {before after : List (String × List SymbolDef)}
    {f : String × List SymbolDef} (h : ((before ++ f :: after).map (·.1)).Nodup) :
    (before ++ f :: after).filter (fun g => decide (g.1 ≠ f.1)) = before ++ after := by
  rw [List.map_append, List.map_cons, List.nodup_middle, List.nodup_cons, ← List.map_append] at h
  have hother : ∀ g ∈ before ++ after, g.1 ≠ f.1 := by
    intro g hg heq
    exact h.1 (heq ▸ List.mem_map_of_mem hg)
  rw [List.filter_append, List.filter_cons_of_neg (by simp), ← List.filter_append]
  exact List.filter_eq_self.mpr fun g hg => by simpa using hother g hg

/-! ### What is known of an index -/

/-- An index has exactly some files, and nothing of any other. -/
structure Standing (x : SymbolIndex) (files : List (String × List SymbolDef)) : Prop where
  consistent : Consistent x
  holds : Holds x files
  aliases : ∀ uri, (x.aliasesForFile? uri).isSome = true → (x.generation? uri).isSome = true

theorem standing_empty : Standing {} [] := ⟨consistent_empty, holds_empty, fun _ h => by cases h⟩

section

variable {x : SymbolIndex} {files : List (String × List SymbolDef)} (h : Standing x files)
  (uri : String)

include h

theorem Standing.define (symbols : List SymbolDef) :
    Standing (x.publishDefinitions uri symbols).2
      (files.filter (fun f => decide (f.1 ≠ uri)) ++ [(uri, symbols)]) where
  consistent := h.consistent.define uri symbols
  holds := h.holds.apply (.define uri symbols)
  aliases v hv := by
    change ((x.aliasesByFile.erase uri).get? v).isSome = true at hv
    rw [generation?_publishDefinitions]
    rw [Dict.get?_erase] at hv
    split at hv
    · cases hv
    · rename_i hne
      rw [if_neg hne]
      exact h.aliases v hv

theorem Standing.replace (text : List Char) (symbols : List SymbolDef) (scopes : FileScopes)
    (limit : Nat) : Standing (x.replaceFile uri text symbols scopes limit).2
      (files.filter (fun f => decide (f.1 ≠ uri)) ++ [(uri, symbols)]) where
  consistent := h.consistent.replace uri text symbols scopes limit
  holds := h.holds.apply (.replace uri text symbols scopes limit)
  aliases v hv := by
    change (((x.aliasesByFile.erase uri).insert uri scopes.aliases).get? v).isSome = true at hv
    rw [generation?_replaceFile]
    rw [Dict.get?_insert_erase] at hv
    split
    · rfl
    · rename_i hne
      rw [if_neg hne] at hv
      exact h.aliases v hv

theorem Standing.remove :
    Standing (x.removeFile uri) (files.filter fun f => decide (f.1 ≠ uri)) where
  consistent := h.consistent.remove uri
  holds := h.holds.remove uri
  aliases v hv := by
    change ((x.aliasesByFile.erase uri).get? v).isSome = true at hv
    rw [generation?_removeFile]
    rw [Dict.get?_erase] at hv
    split at hv
    · cases hv
    · rename_i hne
      rw [if_neg hne]
      exact h.aliases v hv

omit uri in
theorem Standing.unknown {uri : String} (hunknown : x.generation? uri = none) :
    x.symbolsByFile.get? uri = none ∧ (∀ name, x.referencesTo uri name = []) ∧
      x.aliasesForFile? uri = none := by
  refine ⟨?_, h.consistent.referencesTo_of_unknown hunknown, ?_⟩
  · rw [Dict.get?_eq_none_iff, h.consistent.indexed]
    exact (Dict.get?_eq_none_iff _ _).mp hunknown
  · by_contra hne
    have hindexed := h.aliases uri (Option.isSome_iff_ne_none.mpr hne)
    rw [hunknown] at hindexed
    cases hindexed

theorem Standing.retractAll (place : Text.Extent) (names : List Name) :
    Standing (retractAll uri place names x) files := by
  have hconsistent := h.consistent.retractAll uri place names
  rw [retractAll_references] at hconsistent ⊢
  exact ⟨hconsistent, ⟨h.holds.distinct, h.holds.indexed, h.holds.symbols, h.holds.tidy,
    h.holds.contributions⟩, h.aliases⟩

end

end SymbolIndex

end SqlAtlas
