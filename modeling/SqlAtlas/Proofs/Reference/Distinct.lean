import Mathlib.Data.List.Nodup
import SqlAtlas.Proofs.Reference.Nesting
import SqlAtlas.Proofs.Scope.Variable

/-!
# No emission is made twice

Emissions of different kinds differ. Those of one kind stand in names that share no byte, but for a
table within a table, which has another name, and for the columns of one word, which belong to
different tables.
-/

namespace SqlAtlas

set_option autoImplicit false

open Text

namespace Usage

def Emission.kind? : Emission → Option ReferenceKind
  | .reference r => some r.kind
  | .ambiguity _ => none

/-! ### Kinds -/

section

variable {s : Source} {catalog : Catalog} {line : Span} {claimed : List Span} {e : Emission}

theorem kind?_tables (h : e ∈ (tables s line).emissions) : e.kind? = some .table := by
  obtain ⟨here, _, he⟩ := List.mem_filterMap.mp h
  obtain ⟨name, p, _, rfl⟩ := tableEmission?_eq_some he
  rfl

theorem kind?_calls (h : e ∈ (calls s line).emissions) : e.kind? = some .routine := by
  obtain ⟨here, _, he⟩ := List.mem_filterMap.mp h
  obtain ⟨name, p, _, rfl⟩ := callEmission?_eq_some he
  rfl

theorem kind?_qualified (h : e ∈ (qualified s claimed line).emissions) : e.kind? = some .column := by
  obtain ⟨here, _, he⟩ := List.mem_filterMap.mp h
  obtain ⟨name, last, _, rfl⟩ := qualifiedEmission?_eq_some he
  rfl

theorem kind?_bare {here : Span} (h : e ∈ bareEmissions s catalog here) :
    e.kind? = some .column ∨ e.kind? = none := by
  cases e with
  | reference r =>
    obtain ⟨name, he⟩ := reference_of_mem_bareEmissions h
    cases he
    exact .inl rfl
  | ambiguity a => exact .inr rfl

theorem kind?_line (h : e ∈ lineEmissions s catalog line) : e.kind? ≠ some .parameter := by
  rw [lineEmissions_eq, List.mem_append, List.mem_append, List.mem_append] at h
  rcases h with ((h | h) | h) | h
  · rw [kind?_tables h]
    decide
  · rw [kind?_calls h]
    decide
  · rw [kind?_qualified h]
    decide
  · obtain ⟨here, _, h⟩ := List.mem_flatMap.mp h
    rcases kind?_bare h with hkind | hkind <;> rw [hkind] <;> decide

end

/-! ### Places -/

section

variable {uri : String} {cs : List Char} {scopes : FileScopes} {catalog : Catalog}
  {line here here' : Span} {e e' : Emission}

theorem standsIn_line {l : Text.Line} (hl : l ∈ lines cs)
    (h : e ∈ lineEmissions (.ofText uri cs scopes) catalog l.span) :
    ∃ here, NameIn (.ofText uri cs scopes) l.span here ∧ StandsIn (.ofText uri cs scopes) here e := by
  rw [lineEmissions_eq, List.mem_append, List.mem_append, List.mem_append] at h
  rcases h with ((h | h) | h) | h
  · obtain ⟨here, hhere, he⟩ := List.mem_filterMap.mp h
    have hin := nameIn_of_mem_claimedFirst hl (List.mem_append_left _ hhere)
    exact ⟨here, hin, hin.standsIn_table he⟩
  · obtain ⟨here, hhere, he⟩ := List.mem_filterMap.mp h
    have hin := nameIn_of_mem_claimedFirst hl (List.mem_append_right _ hhere)
    exact ⟨here, hin, hin.standsIn_call he⟩
  · obtain ⟨here, hhere, he⟩ := List.mem_filterMap.mp h
    have hin := nameIn_of_mem_qualified hl hhere
    exact ⟨here, hin, hin.standsIn_qualified he⟩
  · obtain ⟨here, hhere, he⟩ := List.mem_flatMap.mp h
    have hin := nameIn_of_mem_bareWords hl hhere
    exact ⟨here, hin, hin.standsIn_bare he⟩

/-- Emissions made one for each of some names that share no byte are different. -/
theorem nodup_filterMap {names : List Span} {f : Span → Option Emission}
    (hascending : names.Pairwise fun here next => here.stop ≤ next.start)
    (hin : ∀ here ∈ names, NameIn (.ofText uri cs scopes) line here)
    (hstands : ∀ here e, NameIn (.ofText uri cs scopes) line here → f here = some e →
      StandsIn (.ofText uri cs scopes) here e) : (names.filterMap f).Nodup := by
  rw [List.Nodup, List.pairwise_filterMap]
  refine hascending.imp_of_mem ?_
  intro here next hhere hnext hle e he e' he'
  exact (hin here hhere).emission_ne (hstands here e (hin here hhere) he)
    (hstands next e' (hin next hnext) he') (.inl hle)

theorem calls_nodup {l : Text.Line} (hl : l ∈ lines cs) :
    (calls (.ofText uri cs scopes) l.span).emissions.Nodup := by
  refine nodup_filterMap ?_ (fun here hhere => nameIn_of_mem_claimedFirst hl (List.mem_append_right _ hhere))
    fun here e hin => hin.standsIn_call
  obtain ⟨before, line, after, hmasked, hspan⟩ := masked_line hl
  rw [hspan]
  exact callNames_ascending hmasked

theorem claimed_ascending {l : Text.Line} (hl : l ∈ lines cs) (claimed : List Span) :
    (qualified (.ofText uri cs scopes) claimed l.span).claimed.Pairwise
      fun here next => here.stop ≤ next.start := by
  obtain ⟨before, line, after, hmasked, hspan⟩ := masked_line hl
  rw [hspan]
  exact qualified_ascending hmasked claimed

theorem qualified_nodup {l : Text.Line} (hl : l ∈ lines cs) (claimed : List Span) :
    (qualified (.ofText uri cs scopes) claimed l.span).emissions.Nodup := by
  exact nodup_filterMap (claimed_ascending hl claimed) (fun here => nameIn_of_mem_qualified hl)
    fun here e hin => hin.standsIn_qualified

end

/-! ### Emissions of a text -/

variable (uri : String) (cs : List Char) (catalog : Catalog)

theorem Undecided.nodup {uri : String} {cs : List Char} {catalog : Catalog} {here : Span}
    {a : Ambiguity} (h : Undecided (.ofText uri cs (.ofText cs)) catalog here a) : a.provisional.Nodup := by
  obtain ⟨scope, hscope, hcandidates⟩ := h.statement
  have hnodup := (FileScopes.ascending_candidates hscope).nodup
  rw [← hcandidates] at hnodup
  exact hnodup.sublist h.sublist

theorem bareEmissions_nodup (here : Span) :
    (bareEmissions (.ofText uri cs (.ofText cs)) catalog here).Nodup := by
  have hreferences : ∀ {column : Name} {tables : List Name}, tables.Nodup →
      (bareReferences (.ofText uri cs (.ofText cs)) column tables here).Nodup := by
    intro column tables htables
    refine htables.map fun t t' heq => ?_
    simp only [Source.emit, Emission.reference.injEq, Reference.mk.injEq] at heq
    exact Name.qualified_left_injective heq.1
  rcases bareEmissions_cases (.ofText uri cs (.ofText cs)) catalog here with
    ⟨column, tables, hfew, heq⟩ | ⟨a, hundecided, heq⟩
  · rw [heq]
    apply hreferences
    rcases Nat.le_one_iff_eq_zero_or_eq_one.mp hfew with hnone | hone
    · rw [List.length_eq_zero_iff.mp hnone]
      exact List.nodup_nil
    · obtain ⟨t, rfl⟩ := List.length_eq_one_iff.mp hone
      exact List.nodup_singleton t
  · rw [heq, List.nodup_append]
    refine ⟨hreferences hundecided.nodup, List.nodup_singleton _, ?_⟩
    rintro e he e' he' rfl
    cases List.mem_singleton.mp he'
    cases ambiguity?_bareReferences he

theorem lineEmissions_nodup {l : Text.Line} (hl : l ∈ lines cs) :
    (lineEmissions (.ofText uri cs (.ofText cs)) catalog l.span).Nodup := by
  rw [lineEmissions_eq, List.nodup_append, List.nodup_append, List.nodup_append]
  refine ⟨⟨⟨tables_nodup hl, calls_nodup hl, ?_⟩, qualified_nodup hl _, ?_⟩, ?_, ?_⟩
  · rintro e he e' he' rfl
    have hkind := (kind?_tables he).symm.trans (kind?_calls he')
    cases hkind
  · rintro e he e' he' rfl
    have hkind := kind?_qualified he'
    rcases List.mem_append.mp he with he | he
    · cases (kind?_tables he).symm.trans hkind
    · cases (kind?_calls he).symm.trans hkind
  · rw [List.nodup_flatMap]
    refine ⟨fun here _ => bareEmissions_nodup uri cs catalog here, ?_⟩
    refine (bareWords_ascending hl).imp_of_mem ?_
    intro here next hhere hnext hle e he he'
    have hin := nameIn_of_mem_bareWords hl hhere
    have hin' := nameIn_of_mem_bareWords hl hnext
    exact hin.emission_ne (hin.standsIn_bare he) (hin'.standsIn_bare he') (.inl hle) rfl
  · rintro e he e' he' rfl
    obtain ⟨here, hhere, hbare⟩ := List.mem_flatMap.mp he'
    have hkind := kind?_bare hbare
    rcases List.mem_append.mp he with he | he
    · rcases List.mem_append.mp he with he | he
      · simp [kind?_tables he] at hkind
      · simp [kind?_calls he] at hkind
    · obtain ⟨claimed, hclaimed, he⟩ := List.mem_filterMap.mp he
      have hin := nameIn_of_mem_bareWords hl hhere
      have hin' := nameIn_of_mem_qualified hl hclaimed
      exact hin.emission_ne (hin.standsIn_bare hbare) (hin'.standsIn_qualified he)
        (bareWord_apart hl hl hhere (List.mem_append_right _ hclaimed)) rfl

theorem emissions_nodup : (emissions (.ofText uri cs (.ofText cs)) catalog).Nodup := by
  rw [emissions, List.nodup_append, List.nodup_flatMap]
  refine ⟨⟨fun l hl => lineEmissions_nodup uri cs catalog hl, ?_⟩, ?_, ?_⟩
  · refine (linesFrom_ascending 0 cs).imp_of_mem ?_
    intro l l' hl hl' hlt e he he'
    obtain ⟨here, hin, hstands⟩ := standsIn_line hl he
    obtain ⟨here', hin', hstands'⟩ := standsIn_line hl' he'
    have hstop := hin.before_stop
    have hstart := hin'.after_start
    have hline : l'.span.start = l'.start := rfl
    exact hin.emission_ne hstands hstands' (.inl (by omega)) rfl
  · have hmap : (FileScopes.ofText cs).routines.flatMap (parameterEmissions (.ofText uri cs (.ofText cs))) =
        ((FileScopes.ofText cs).routines.flatMap fun r => r.parameters ++ r.usages).map fun v =>
          (Source.ofText uri cs (.ofText cs)).emit v.name .parameter v.span := by
      rw [List.map_flatMap]
      rfl
    change ((FileScopes.ofText cs).routines.flatMap (parameterEmissions _)).Nodup
    rw [hmap, List.Nodup, List.pairwise_map]
    refine (FileScopes.variables_apart cs).imp fun hne heq => hne ?_
    simp only [Source.emit, Emission.reference.injEq, Reference.mk.injEq] at heq
    exact heq.2.2.1
  · rintro e he e' he' rfl
    obtain ⟨l, _, he⟩ := List.mem_flatMap.mp he
    obtain ⟨routine, _, he'⟩ := List.mem_flatMap.mp he'
    obtain ⟨v, _, rfl⟩ := List.mem_map.mp he'
    exact kind?_line he rfl

end Usage

end SqlAtlas
