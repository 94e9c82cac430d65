import SqlAtlas.Proofs.Index.Origin
import SqlAtlas.Proofs.Index.Reindexing
import SqlAtlas.Proofs.Reference.Naming

/-!
# References found by their own names

References are stored under the names that they carry, and every question normalizes the name that
it is asked for. A stored name must therefore be its own normal form to be found. Names that keep
delimiters are not, nor are columns of a table with the name of the default schema, nor the column
without a name of a table without one.
-/

namespace SqlAtlas

set_option autoImplicit false

open Text Usage

/-! ### Stored names -/

theorem Name.IsSpelled.isNormalForm {n : Name} (h : n.IsSpelled) : IsNormalForm n.chars := by
  obtain ⟨raw, rfl⟩ := h
  exact isNormalForm_normalizeName raw

theorem Name.ofChars_eq_self_iff (n : Name) :
    Name.ofChars n.chars = n ↔ normalizeName n.chars = n.chars :=
  ⟨congrArg Name.chars, Name.eq_of_chars⟩

theorem Name.splitOnChar_qualified (table column : Name) :
    splitOnChar '.' (table.qualified column).chars =
      splitOnChar '.' table.chars ++ splitOnChar '.' column.chars :=
  splitOnChar_append '.' table.chars column.chars

/-- The parts of a table and a column that are spelled stay as they are, and nothing but the parts
of the default schema or empty ones can be left out of them. -/
theorem Name.ofChars_qualified_iff {table column : Name} (htable : table.IsSpelled)
    (hcolumn : column.IsSpelled) :
    Name.ofChars (table.qualified column).chars = table.qualified column ↔
      (∀ part ∈ splitOnChar '.' (table.qualified column).chars, Tight isNameDelimiter part) ∧
        ¬InDefaultSchema (splitOnChar '.' (table.qualified column).chars) ∧
        ∃ part ∈ splitOnChar '.' (table.qualified column).chars, part ≠ [] := by
  have hparts : ∀ part ∈ splitOnChar '.' (table.qualified column).chars, IsNormalPart part := by
    intro part hpart
    rw [Name.splitOnChar_qualified, List.mem_append] at hpart
    rcases hpart with hpart | hpart
    · exact htable.isNormalForm.parts part hpart
    · exact hcolumn.isNormalForm.parts part hpart
  have hne : (table.qualified column).chars ≠ [] := by simp [Name.qualified]
  rw [Name.ofChars_eq_self_iff, normalizeName_eq_self_iff hparts, or_iff_right hne]

theorem Name.IsSpelled.ofChars_iff {n : Name} (h : n.IsSpelled) :
    Name.ofChars n.chars = n ↔ ∀ part ∈ splitOnChar '.' n.chars, Tight isNameDelimiter part := by
  obtain ⟨raw, rfl⟩ := h
  rw [Name.ofChars_eq_self_iff]
  exact normalizeName_twice_iff raw

/-! ### The index -/

/-- Whether an operation comes with the scopes of its own text. -/
def IndexOperation.Analyzed : IndexOperation → Prop
  | .replace _ text _ scopes _ => scopes = .ofText text
  | _ => True

namespace SymbolIndex

/-- A stored reference is found by its own name exactly if none of the name's parts has a delimiter
at its ends and, for a column, its name is not a default schema with one more part and not made of
empty parts. -/
theorem found_by_own_name_iff {ops : List IndexOperation} (hops : ∀ op ∈ ops, op.Analyzed)
    {uri : String} {r : Reference} (hr : r ∈ (IndexOperation.run {} ops).referencesInFile uri) :
    r ∈ (IndexOperation.run {} ops).getReferences (Name.ofText r.name.text) ↔
      (∀ part ∈ splitOnChar '.' r.name.chars, Tight isNameDelimiter part) ∧
        (r.kind = .column → ¬InDefaultSchema (splitOnChar '.' r.name.chars) ∧
          ∃ part ∈ splitOnChar '.' r.name.chars, part ≠ []) := by
  have hfound : r ∈ (IndexOperation.run {} ops).getReferences (Name.ofText r.name.text) ↔
      Name.ofChars r.name.chars = r.name := by
    rw [mem_getReferences_iff, and_iff_left ⟨uri, hr⟩, eq_comm, Name.ofText, Name.text,
      String.toList_ofList]
  obtain ⟨text, symbols, scopes, limit, catalog, hop, hemitted⟩ :=
    extracted_of_mem_referencesInFile hr
  have hscopes : scopes = .ofText text := hops _ hop
  subst hscopes
  rw [hfound]
  rcases isSpelled_of_mem_emissions (FileScopes.spelled_ofText text) hemitted with
    ⟨hkind, hspelled⟩ | ⟨hkind, table, column, htable, hcolumn, hname⟩
  · rw [hspelled.ofChars_iff, and_iff_left fun h => absurd h hkind]
  · rw [hname, Name.ofChars_qualified_iff htable hcolumn]
    simp only [hkind, forall_const]

/-- A column in delimiters, with a schema inside them, is found. -/
theorem found_by_own_name_delimited :
    let x := IndexOperation.run {} [.ofText "q.sql" "SELECT e.[dbo.Name] FROM dbo.Employee e".toList 10]
    let r : Reference := ⟨.ofText "employee.name", "q.sql", ⟨0, 10, 18⟩, .column⟩
    r ∈ x.referencesInFile "q.sql" ∧ r ∈ x.getReferences (Name.ofText r.name.text) := by
  intro x r
  have hr : r ∈ x.referencesInFile "q.sql" := by
    rw [(consistent_run _).mem_referencesInFile]
    decide +kernel
  refine ⟨hr, (found_by_own_name_iff ?_ hr).mpr (by decide +kernel)⟩
  intro op hop
  rw [List.mem_singleton.mp hop]
  rfl

/-- A column of a table with the name of the default schema, and a table with delimiters inside its
delimiters, are stored and not found. -/
theorem lost_by_own_name :
    let x := IndexOperation.run {}
      [.ofText "q.sql" "SELECT dbo.x FROM dbo JOIN \" [a] \" ON 1 = 1".toList 10]
    let column : Reference := ⟨⟨"dbo.x".toList⟩, "q.sql", ⟨0, 11, 12⟩, .column⟩
    let table : Reference := ⟨⟨"[a]".toList⟩, "q.sql", ⟨0, 28, 33⟩, .table⟩
    (column ∈ x.referencesInFile "q.sql" ∧ column ∉ x.getReferences (Name.ofText column.name.text)) ∧
      table ∈ x.referencesInFile "q.sql" ∧ table ∉ x.getReferences (Name.ofText table.name.text) := by
  intro x column table
  simp only [(consistent_run _).mem_referencesInFile, mem_getReferences_iff, x]
  refine ⟨⟨by decide +kernel, fun h => ?_⟩, by decide +kernel, fun h => ?_⟩
  · exact absurd h.1 (by decide +kernel)
  · exact absurd h.1 (by decide +kernel)

end SymbolIndex

end SqlAtlas
