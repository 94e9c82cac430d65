import SqlAtlas.Proofs.Index.Origin
import SqlAtlas.Proofs.Index.Reindexing
import SqlAtlas.Proofs.Reference.Naming

/-!
# What a name can stand for

Schemas, tables and columns share one space of dotted names. The name of a column reference can be
cut into a table and a column at each of its dots, so that two cuts differ in which of the two a
part in the middle belongs to. That part is in the column for the one, which is a name with a dot
inside its delimiters, and in the table for the other.
-/

namespace SqlAtlas

set_option autoImplicit false

open Text Usage

/-- A column loses its first parts to the table. -/
def Shifted (table column table' column' : Name) : Prop :=
  ∃ middle, table'.chars = table.chars ++ '.' :: middle ∧
    column.chars = middle ++ '.' :: column'.chars

/-- A table that goes on behind another's end takes nothing or the first parts of its column. -/
theorem shifted_of_append {table column table' column' : Name} {more : List Char}
    (htable : table'.chars = table.chars ++ more)
    (hcolumn : '.' :: column.chars = more ++ '.' :: column'.chars) :
    (table = table' ∧ column = column') ∨ Shifted table column table' column' := by
  cases more with
  | nil =>
    rw [List.append_nil] at htable
    exact .inl ⟨Name.eq_of_chars htable.symm, Name.eq_of_chars (List.cons.inj hcolumn).2⟩
  | cons dot middle =>
    obtain ⟨rfl, hmiddle⟩ := List.cons.inj hcolumn
    exact .inr ⟨middle, htable, hmiddle⟩

/-- The same key is cut at the same dot, or one of the columns loses parts to the other's table. -/
theorem Name.qualified_eq_cases {table column table' column' : Name}
    (h : table.qualified column = table'.qualified column') :
    (table = table' ∧ column = column') ∨ Shifted table column table' column' ∨
      Shifted table' column' table column := by
  rcases List.append_eq_append_iff.mp (Name.mk.inj h) with
    ⟨more, htable, hcolumn⟩ | ⟨more, htable, hcolumn⟩
  · exact (shifted_of_append htable hcolumn).imp_right .inl
  · rcases shifted_of_append htable hcolumn with ⟨rfl, rfl⟩ | hshifted
    · exact .inl ⟨rfl, rfl⟩
    · exact .inr (.inr hshifted)

theorem dot_mem_of_mem_normalizeName {raw : List Char} (h : '.' ∈ normalizeName raw) : '.' ∈ raw := by
  by_contra hraw
  have hparts : normalParts raw = [normalPart raw] := by
    rw [normalParts, splitOnChar_of_notMem hraw]
    rfl
  rcases normalizeName_cases raw with ⟨hname, _⟩ | ⟨object, hobject, _⟩ | ⟨_, _, hname⟩
  · rw [hname] at h
    cases h
  · rw [hparts] at hobject
    have hlength := congrArg List.length hobject
    simp at hlength
  · rw [hname, hparts] at h
    exact dot_notMem_normalPart hraw h

/-- Some operations find a reference as the use of a column of a table. -/
def ProducedFor (ops : List IndexOperation) (r : Reference) (table column : Name) : Prop :=
  ∃ uri text symbols scopes limit catalog place,
    IndexOperation.replace uri text symbols scopes limit ∈ ops ∧
      ColumnUse (.ofText uri text scopes) catalog table column place ∧
      .reference r = (Source.ofText uri text scopes).emit (table.qualified column) .column place

theorem ProducedFor.name_eq {ops : List IndexOperation} {r : Reference} {table column : Name}
    (h : ProducedFor ops r table column) : r.name = table.qualified column := by
  obtain ⟨_, _, _, _, _, _, _, _, _, he⟩ := h
  cases he
  rfl

/-- An extracted reference to a column was produced for one of a table, and one to a table is
spelled. -/
theorem Extracted.cases {ops : List IndexOperation} {uri : String} {r : Reference}
    (h : Extracted ops uri r) :
    (r.kind = .column → ∃ table column, ProducedFor ops r table column) ∧
      (r.kind = .table → r.name.IsSpelled) := by
  obtain ⟨text, symbols, scopes, limit, catalog, hop, hr⟩ := h
  rcases reference_name hr with ⟨table, column, place, huse, he⟩ | ⟨hkind, hspelled⟩ | ⟨hkind, _⟩
  · refine ⟨fun _ => ⟨table, column, uri, text, symbols, scopes, limit, catalog, place, hop, huse, he⟩, ?_⟩
    cases he
    exact nofun
  · refine ⟨?_, fun _ => hspelled⟩
    rcases hkind with hkind | hkind <;> simp [hkind]
  · simp [hkind]

namespace SymbolIndex

/-- Among the references to one name, every column reference was produced for a column of a table.
Two of them were produced for the same one, unless one of the columns has a dot in its name and the
parts in front of it are the end of the other's table. A table has the name of a column reference
only if it is spelled with a dot. -/
theorem references_to_column {ops : List IndexOperation} {name : Name} {r r' : Reference}
    (hr : r ∈ (IndexOperation.run {} ops).getReferences name)
    (hr' : r' ∈ (IndexOperation.run {} ops).getReferences name) (hkind : r.kind = .column) :
    (∃ table column, ProducedFor ops r table column) ∧
      (∀ {table column table' column' : Name}, ProducedFor ops r table column →
        ProducedFor ops r' table' column' → (table = table' ∧ column = column') ∨
          Shifted table column table' column' ∨ Shifted table' column' table column) ∧
      (r'.kind = .column → ∃ table column, ProducedFor ops r' table column) ∧
      (r'.kind = .table → ∃ raw, r'.name = .ofChars raw ∧ '.' ∈ raw) := by
  obtain ⟨hname, uri, hr⟩ := mem_getReferences_iff.mp hr
  obtain ⟨hname', uri', hr'⟩ := mem_getReferences_iff.mp hr'
  have hproduced := (extracted_of_mem_referencesInFile hr).cases.1 hkind
  obtain ⟨hcolumn', htable'⟩ := (extracted_of_mem_referencesInFile hr').cases
  refine ⟨hproduced, ?_, hcolumn', ?_⟩
  · intro table column table' column' h h'
    apply Name.qualified_eq_cases
    rw [← h.name_eq, ← h'.name_eq, hname, hname']
  · intro hkind'
    obtain ⟨raw, hraw⟩ := htable' hkind'
    obtain ⟨table, column, h⟩ := hproduced
    refine ⟨raw, hraw, dot_mem_of_mem_normalizeName ?_⟩
    have hsame : table.qualified column = .ofChars raw := by rw [← h.name_eq, hname, ← hname', hraw]
    rw [← show (table.qualified column).chars = normalizeName raw from congrArg Name.chars hsame]
    simp [Name.qualified]

/-- A column of a table that has the name of a schema, and a table of that schema. -/
theorem references_to_column_schema :
    let ops := [IndexOperation.ofText "q.sql" "SELECT s.Orders FROM Sales s JOIN Sales.Orders o ON 1 = 1".toList 10]
    let name := Name.ofText "Sales.Orders"
    let column : Reference := ⟨name, "q.sql", ⟨0, 9, 15⟩, .column⟩
    let table : Reference := ⟨name, "q.sql", ⟨0, 40, 46⟩, .table⟩
    (column ∈ (IndexOperation.run {} ops).getReferences name ∧
      table ∈ (IndexOperation.run {} ops).getReferences name) ∧
      (∃ table column', ProducedFor ops column table column') ∧
      ∃ raw, table.name = .ofChars raw ∧ '.' ∈ raw := by
  intro ops name column table
  have hcolumn : column ∈ (IndexOperation.run {} ops).getReferences name := by
    rw [mem_getReferences_iff]
    refine ⟨rfl, "q.sql", ?_⟩
    rw [(consistent_run _).mem_referencesInFile]
    decide +kernel
  have htable : table ∈ (IndexOperation.run {} ops).getReferences name := by
    rw [mem_getReferences_iff]
    refine ⟨rfl, "q.sql", ?_⟩
    rw [(consistent_run _).mem_referencesInFile]
    decide +kernel
  have h := references_to_column hcolumn htable rfl
  exact ⟨⟨hcolumn, htable⟩, h.1, h.2.2.2 rfl⟩

/-- A column in delimiters with a dot in its name, and a column of a table in a schema. -/
theorem references_to_column_clash :
    let text := "SELECT t.[b.c], u.c FROM t JOIN t.b u ON 1 = 1 JOIN t.b.c ON 1 = 1".toList
    let ops := [IndexOperation.ofText "q.sql" text 10]
    let name := Name.ofText "t.b.c"
    let dotted : Reference := ⟨name, "q.sql", ⟨0, 10, 13⟩, .column⟩
    let plain : Reference := ⟨name, "q.sql", ⟨0, 18, 19⟩, .column⟩
    let table : Reference := ⟨name, "q.sql", ⟨0, 56, 57⟩, .table⟩
    (∀ r ∈ [dotted, plain, table], r ∈ (IndexOperation.run {} ops).referencesInFile "q.sql") ∧
      ProducedFor ops dotted (.ofText "t") (.ofText "b.c") ∧
      ProducedFor ops plain (.ofText "t.b") (.ofText "c") ∧ Name.ofText "t" ≠ Name.ofText "t.b" := by
  intro text ops name dotted plain table
  let s : Source := .ofText "q.sql" text (.ofText text)
  have hproduced : ∀ {r : Reference} {owner column : Name} (here q c : Span),
      here ∈ (qualified s (claimedFirst s ⟨0, 66⟩) ⟨0, 66⟩).claimed →
      partSpans (slice text here) = [q, c] →
      qualifierTable? s (.ofChars (slice (slice text here) q)) 2 here.start = some owner →
      column = .ofChars (slice (slice text here) c) →
      .reference r = s.emit (owner.qualified column) .column ⟨here.start + c.start, here.start + c.stop⟩ →
      ProducedFor ops r owner column := by
    rintro r owner column here q c hhere hspans htable rfl he
    exact ⟨"q.sql", text, _, .ofText text, 10, fun _ _ => false, _, List.mem_singleton_self _,
      ⟨⟨0, text⟩, List.mem_singleton_self _, .inl ⟨here, hhere, .two hspans htable⟩⟩, he⟩
  refine ⟨?_, ?_, ?_, by decide +kernel⟩
  · intro r hr
    rw [(consistent_run _).mem_referencesInFile]
    revert r
    decide +kernel
  · exact hproduced ⟨7, 14⟩ ⟨0, 1⟩ ⟨3, 6⟩ (by decide +kernel) (by decide +kernel) (by decide +kernel)
      (by decide +kernel) (by decide +kernel)
  · exact hproduced ⟨16, 19⟩ ⟨0, 1⟩ ⟨2, 3⟩ (by decide +kernel) (by decide +kernel) (by decide +kernel)
      (by decide +kernel) (by decide +kernel)

end SymbolIndex

end SqlAtlas
