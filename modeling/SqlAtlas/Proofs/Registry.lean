import SqlAtlas.Proofs.Dict
import SqlAtlas.Proofs.NameSet
import SqlAtlas.Registry

/-!
# Contributions to tables

What a registry knows of a table is its list of contributions, the latest last. Adding the
definitions of a file moves the file to the end of the lists of the tables that it defines; removing
the file takes it out of all lists. Only the last definition of a table in a file counts, and only
definitions with columns do.
-/

namespace SqlAtlas

set_option autoImplicit false

def SymbolDef.gives (table : Name) (s : SymbolDef) : Bool :=
  s.kind.hasColumns && decide (s.name = table)

/-- The names of the declared columns in order, each once. -/
def SymbolDef.columnNames (s : SymbolDef) : List Name := (s.columns.map (·.name)).eraseDups

/-- The definition by which a file gives a table its columns: the last one. -/
def tableDefinition? (table : Name) (symbols : List SymbolDef) : Option SymbolDef :=
  (symbols.filter (SymbolDef.gives table)).getLast?

theorem tableDefinition?_cons (table : Name) (s : SymbolDef) (symbols : List SymbolDef) :
    tableDefinition? table (s :: symbols) =
      (tableDefinition? table symbols).or (if s.gives table then some s else none) := by
  unfold tableDefinition?
  by_cases h : s.gives table = true
  · rw [List.filter_cons_of_pos h, if_pos h, List.getLast?_cons]
    cases (symbols.filter (SymbolDef.gives table)).getLast? <;> rfl
  · rw [List.filter_cons_of_neg h, if_neg h, Option.or_none]

theorem tableDefinition?_eq_none_iff {table : Name} {symbols : List SymbolDef} :
    tableDefinition? table symbols = none ↔
      ∀ s ∈ symbols, s.name = table → s.kind.hasColumns = false := by
  rw [tableDefinition?, List.getLast?_eq_none_iff, List.filter_eq_nil_iff]
  refine forall_congr' fun s => imp_congr_right fun _ => ?_
  by_cases hname : s.name = table <;> simp [SymbolDef.gives, hname]

namespace ColumnRegistry

def contributions (r : ColumnRegistry) (table : Name) : List Contribution :=
  (r.tables.get? table).getD []

def contribution (uri : String) (s : SymbolDef) : Contribution := ⟨uri, s.columnNames⟩

theorem columns?_eq (r : ColumnRegistry) (table : Name) :
    r.columns? table = (r.contributions table).getLast?.map (·.columns) := by
  rw [columns?, contributions]
  cases r.tables.get? table <;> rfl

/-- Tables are listed once, and only with contributions. -/
structure Tidy (r : ColumnRegistry) : Prop where
  distinct : r.tables.Distinct
  nonempty : ∀ table, r.tables.get? table ≠ some []

theorem tidy_empty : Tidy {} where
  distinct := Dict.distinct_empty
  nonempty _ := nofun

theorem Tidy.mem_keys_iff {r : ColumnRegistry} (h : Tidy r) (table : Name) :
    table ∈ r.tables.keys ↔ r.contributions table ≠ [] := by
  rw [Dict.mem_keys_iff, contributions]
  cases hcs : r.tables.get? table with
  | none => simp
  | some cs =>
    have hne : cs ≠ [] := fun hnil => h.nonempty table (hcs.trans (congrArg some hnil))
    simpa using hne

/-! ### Adding a file -/

theorem contributions_addSymbol (uri : String) (r : ColumnRegistry) (s : SymbolDef) (table : Name) :
    (addSymbol uri r s).contributions table =
      if s.gives table then without uri (r.contributions table) ++ [contribution uri s]
      else r.contributions table := by
  rw [addSymbol, SymbolDef.gives]
  cases hkind : s.kind.hasColumns with
  | false => rfl
  | true =>
    by_cases hname : s.name = table
    · subst hname
      simp [contributions, Dict.get?_insert, contribution, SymbolDef.columnNames]
    · simp [contributions, Dict.get?_insert, hname]

theorem without_concat (c : Contribution) (cs : List Contribution) :
    without c.uri (without c.uri cs ++ [c]) = without c.uri cs := by
  simp [without, List.filter_append]

theorem contributions_addFile (uri : String) (r : ColumnRegistry) (symbols : List SymbolDef)
    (table : Name) : (r.addFile uri symbols).contributions table =
      match tableDefinition? table symbols with
      | some s => without uri (r.contributions table) ++ [contribution uri s]
      | none => r.contributions table := by
  induction symbols generalizing r with
  | nil => rfl
  | cons s symbols ih =>
    have hrest := ih (addSymbol uri r s)
    rw [addFile] at hrest
    rw [addFile, List.foldl_cons, hrest, contributions_addSymbol, tableDefinition?_cons]
    by_cases hs : s.gives table = true
    · rw [if_pos hs, if_pos hs]
      cases tableDefinition? table symbols with
      | none => rfl
      | some last => exact congrArg (· ++ [contribution uri last]) (without_concat (contribution uri s) _)
    · rw [if_neg hs, if_neg hs, Option.or_none]

theorem Tidy.addSymbol {r : ColumnRegistry} (h : Tidy r) (uri : String) (s : SymbolDef) :
    Tidy (addSymbol uri r s) := by
  rw [ColumnRegistry.addSymbol]
  split
  · refine ⟨h.distinct.insert _ _, fun table => ?_⟩
    rw [Dict.get?_insert]
    split
    · simp
    · exact h.nonempty table
  · exact h

theorem Tidy.addFile {r : ColumnRegistry} (h : Tidy r) (uri : String) (symbols : List SymbolDef) :
    Tidy (r.addFile uri symbols) := by
  induction symbols generalizing r with
  | nil => exact h
  | cons s symbols ih => exact ih (h.addSymbol uri s)

/-! ### Removing a file -/

theorem removeFile_eq (r : ColumnRegistry) (uri : String) :
    (r.removeFile uri).tables = r.tables.filterMap fun _ cs =>
      if (without uri cs).isEmpty then none else some (without uri cs) := by
  rw [removeFile, Dict.filterMap]
  refine congrArg Dict.mk (List.filterMap_congr fun e _ => ?_)
  simp only
  split <;> rfl

theorem Tidy.get?_removeFile {r : ColumnRegistry} (h : Tidy r) (uri : String) (table : Name) :
    (r.removeFile uri).tables.get? table = (r.tables.get? table).bind fun cs =>
      if (without uri cs).isEmpty then none else some (without uri cs) := by
  rw [removeFile_eq, h.distinct.get?_filterMap]

theorem Tidy.contributions_removeFile {r : ColumnRegistry} (h : Tidy r) (uri : String)
    (table : Name) : (r.removeFile uri).contributions table = without uri (r.contributions table) := by
  rw [contributions, contributions, h.get?_removeFile]
  cases r.tables.get? table with
  | none => rfl
  | some cs =>
    rw [Option.bind_some, Option.getD_some]
    split
    · rename_i hempty
      rw [List.isEmpty_iff.mp hempty]
      rfl
    · rfl

theorem Tidy.removeFile {r : ColumnRegistry} (h : Tidy r) (uri : String) : Tidy (r.removeFile uri) := by
  constructor
  · rw [removeFile_eq]
    exact h.distinct.filterMap _
  · intro table
    rw [h.get?_removeFile]
    cases r.tables.get? table with
    | none => exact nofun
    | some cs =>
      rw [Option.bind_some]
      split
      · exact nofun
      · rename_i hne
        intro heq
        exact hne (List.isEmpty_iff.mpr (Option.some.inj heq))

/-! ### Tables by column -/

theorem hasColumn_eq_true_iff (r : ColumnRegistry) (table column : Name) :
    r.hasColumn table column = true ↔ column ∈ (r.columns? table).getD [] := by
  rw [hasColumn]
  cases r.columns? table <;> simp

theorem ascending_tablesWith (r : ColumnRegistry) (column : Name) :
    NameSet.Ascending (r.tablesWith column) :=
  NameSet.ascending_nil.insertAll _

theorem mem_tablesWith (r : ColumnRegistry) (table column : Name) :
    table ∈ r.tablesWith column ↔ column ∈ (r.columns? table).getD [] := by
  rw [tablesWith, NameSet.ofList, NameSet.mem_insertAll, List.mem_filter, hasColumn_eq_true_iff]
  constructor
  · rintro (⟨_, hcolumn⟩ | hnil)
    · exact hcolumn
    · cases hnil
  · intro hcolumn
    refine .inl ⟨?_, hcolumn⟩
    rw [Dict.mem_keys_iff]
    cases hcs : r.tables.get? table with
    | none =>
      rw [columns?, hcs] at hcolumn
      cases hcolumn
    | some cs => rfl

end ColumnRegistry

end SqlAtlas
