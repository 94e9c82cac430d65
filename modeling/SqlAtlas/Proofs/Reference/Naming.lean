import SqlAtlas.Proofs.Name.NormalForm
import SqlAtlas.Proofs.Reference.Emission
import SqlAtlas.Proofs.Scope.Names

/-!
# What references are named after

Tables, routines and parameters are named by a spelling. A column is named by a table and a spelling:
a qualified one by the table that its qualifier stands for, a bare one by each candidate table of
its statement that has it.
-/

namespace SqlAtlas.Usage

set_option autoImplicit false

open Text

inductive QualifiedUse (s : Source) (here : Span) : Name → Name → Span → Prop
  | two {q c : Span} {table : Name} (hspans : partSpans (slice s.chars here) = [q, c])
      (htable : qualifierTable? s (.ofChars (slice (slice s.chars here) q)) 2 here.start = some table) :
      QualifiedUse s here table (.ofChars (slice (slice s.chars here) c))
        ⟨here.start + c.start, here.start + c.stop⟩
  | three {q t c : Span} {table : Name} (hspans : partSpans (slice s.chars here) = [q, t, c])
      (htable : qualifierTable? s (.ofChars (slice (slice s.chars here) q ++
        '.' :: slice (slice s.chars here) t)) 3 here.start = some table) :
      QualifiedUse s here table (.ofChars (slice (slice s.chars here) c))
        ⟨here.start + c.start, here.start + c.stop⟩

inductive BareUse (s : Source) (catalog : Catalog) (here : Span) : Name → Name → Span → Prop
  | owned {scope : StatementScope} {table : Name}
      (hscope : s.scopes.scopeAt? here.start = some scope)
      (howner : table ∈ owners catalog scope (.ofChars (slice s.chars here))) :
      BareUse s catalog here table (.ofChars (slice s.chars here)) (bareSpan s here)

/-- A file uses a column of a table at a place. -/
def ColumnUse (s : Source) (catalog : Catalog) (table column : Name) (place : Span) : Prop :=
  ∃ line ∈ lines s.chars,
    (∃ here ∈ (qualified s (claimedFirst s line.span) line.span).claimed,
      QualifiedUse s here table column place) ∨
    ∃ here ∈ bareWords s line.span, BareUse s catalog here table column place

theorem tableEmission?_name {s : Source} {here : Span} {r : Reference}
    (h : tableEmission? s here = some (.reference r)) :
    r.kind = .table ∧ r.name = .ofChars (slice s.chars here) := by
  rw [tableEmission?] at h
  split at h
  · cases h
  · simp only at h
    split at h
    · cases h
    · obtain ⟨p, _, he⟩ := Option.map_eq_some_iff.mp h
      cases he
      exact ⟨rfl, rfl⟩

theorem callEmission?_name {s : Source} {here : Span} {r : Reference}
    (h : callEmission? s here = some (.reference r)) :
    r.kind = .routine ∧ r.name = .ofChars (slice s.chars here) := by
  rw [callEmission?] at h
  split at h
  · cases h
  · obtain ⟨p, _, he⟩ := Option.map_eq_some_iff.mp h
    cases he
    exact ⟨rfl, rfl⟩

theorem qualifiedEmission?_name {s : Source} {here : Span} {r : Reference}
    (h : qualifiedEmission? s here = some (.reference r)) :
    ∃ table column place, QualifiedUse s here table column place ∧
      .reference r = s.emit (table.qualified column) .column place := by
  unfold qualifiedEmission? at h
  simp only [Option.pure_def, Option.bind_eq_bind, Option.bind_none, Option.bind_some] at h
  split at h
  · cases h
  · split at h
    · rename_i q c hspans
      rw [hspans] at h
      split at h
      · cases h
      · obtain ⟨table, htable, h⟩ := Option.bind_eq_some_iff.mp h
        split at h
        · cases h
        · cases h
          exact ⟨table, _, _, .two hspans htable, rfl⟩
    · rename_i q t c hspans
      rw [hspans] at h
      split at h
      · cases h
      · obtain ⟨table, htable, h⟩ := Option.bind_eq_some_iff.mp h
        split at h
        · cases h
        · cases h
          exact ⟨table, _, _, .three hspans htable, rfl⟩
    · cases h

theorem bareEmissions_name {s : Source} {catalog : Catalog} {here : Span} {r : Reference}
    (h : .reference r ∈ bareEmissions s catalog here) :
    ∃ table column place, BareUse s catalog here table column place ∧
      .reference r = s.emit (table.qualified column) .column place := by
  rw [bareEmissions] at h
  split at h
  · cases h
  · rename_i scope hscope
    simp only at h
    split at h
    · cases h
    · rcases List.mem_append.mp h with h | h
      · obtain ⟨table, htable, he⟩ := List.mem_map.mp h
        cases he
        exact ⟨table, _, _, .owned hscope (List.mem_of_mem_filter htable), rfl⟩
      · split at h <;> simp at h

theorem reference_name {s : Source} {catalog : Catalog} {r : Reference}
    (h : .reference r ∈ emissions s catalog) :
    (∃ table column place, ColumnUse s catalog table column place ∧
      .reference r = s.emit (table.qualified column) .column place) ∨
    ((r.kind = .table ∨ r.kind = .routine) ∧ r.name.IsSpelled) ∨
    (r.kind = .parameter ∧ ∃ routine ∈ s.scopes.routines,
      ∃ v ∈ routine.parameters ++ routine.usages, r.name = v.name) := by
  rcases emissions_cases h with
    ⟨l, hl, ⟨here, _, he⟩ | ⟨here, _, he⟩ | ⟨here, hhere, he⟩ | ⟨here, hhere, he⟩⟩ |
    ⟨routine, hroutine, v, hv, he⟩
  · obtain ⟨hkind, hname⟩ := tableEmission?_name he
    exact .inr (.inl ⟨.inl hkind, _, hname⟩)
  · obtain ⟨hkind, hname⟩ := callEmission?_name he
    exact .inr (.inl ⟨.inr hkind, _, hname⟩)
  · obtain ⟨table, column, place, huse, he⟩ := qualifiedEmission?_name he
    exact .inl ⟨table, column, place, ⟨l, hl, .inl ⟨here, hhere, huse⟩⟩, he⟩
  · obtain ⟨table, column, place, huse, he⟩ := bareEmissions_name he
    exact .inl ⟨table, column, place, ⟨l, hl, .inr ⟨here, hhere, huse⟩⟩, he⟩
  · cases he
    exact .inr (.inr ⟨rfl, routine, hroutine, v, hv, rfl⟩)

/-! ### Spelled names -/

section

variable {s : Source} (hscopes : s.scopes.Spelled)

include hscopes

theorem isSpelled_of_qualifierTable? {raw : List Char} {parts offset : Nat} {table : Name}
    (h : qualifierTable? s (.ofChars raw) parts offset = some table) : table.IsSpelled := by
  rw [qualifierTable?] at h
  split at h
  · rename_i t ht
    cases h
    rw [Option.orElse_eq_orElse, Option.orElse_eq_or] at ht
    rcases Option.or_eq_some_iff.mp ht with ht | ⟨_, ht⟩
    · obtain ⟨scope, hscope, ht⟩ := Option.bind_eq_some_iff.mp ht
      exact (hscopes.scopes scope (FileScopes.mem_of_scopeAt? hscope)).1.target? ht
    · exact hscopes.aliases.target? ht
  · cases h
  · split at h
    · cases h
      exact Name.isSpelled_ofChars raw
    · cases h

theorem ColumnUse.isSpelled {catalog : Catalog} {table column : Name} {place : Span}
    (h : ColumnUse s catalog table column place) : table.IsSpelled ∧ column.IsSpelled := by
  obtain ⟨line, _, ⟨here, _, huse⟩ | ⟨here, _, huse⟩⟩ := h
  · cases huse with
    | two hspans htable =>
      exact ⟨isSpelled_of_qualifierTable? hscopes htable, Name.isSpelled_ofChars _⟩
    | three hspans htable =>
      exact ⟨isSpelled_of_qualifierTable? hscopes htable, Name.isSpelled_ofChars _⟩
  · cases huse with
    | owned hscope howner =>
      have hcandidates := (hscopes.scopes _ (FileScopes.mem_of_scopeAt? hscope)).2
      exact ⟨hcandidates _ (List.mem_of_mem_filter howner), Name.isSpelled_ofChars _⟩

/-- Every name but a column's is spelled as it is, and a column's is put together from two. -/
theorem isSpelled_of_mem_emissions {catalog : Catalog} {r : Reference}
    (h : .reference r ∈ emissions s catalog) :
    (r.kind ≠ .column ∧ r.name.IsSpelled) ∨
    (r.kind = .column ∧ ∃ table column : Name, table.IsSpelled ∧ column.IsSpelled ∧
      r.name = table.qualified column) := by
  rcases reference_name h with ⟨table, column, place, huse, he⟩ | ⟨hkind, hname⟩ |
    ⟨hkind, routine, hroutine, v, hv, hname⟩
  · obtain ⟨htable, hcolumn⟩ := huse.isSpelled hscopes
    cases he
    exact .inr ⟨rfl, table, column, htable, hcolumn, rfl⟩
  · refine .inl ⟨?_, hname⟩
    rcases hkind with hkind | hkind <;> simp [hkind]
  · exact .inl ⟨by simp [hkind], hname ▸ hscopes.routines routine hroutine v hv⟩

end

end SqlAtlas.Usage
