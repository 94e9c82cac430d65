import SqlAtlas.Proofs.Reference.Place

/-!
# Extractions are sound

Every bare word has a place of its own, so that no two ambiguities stand at the same place. Nothing
else at such a place has a provisional name: tables and routines stand elsewhere, and parameters
have names that no table has.
-/

namespace SqlAtlas

set_option autoImplicit false

open Text Usage

/-! ### Ambiguities -/

namespace Usage

theorem filterMap_emissions (s : Source) (catalog : Catalog) :
    (emissions s catalog).filterMap Emission.ambiguity? =
      (textWords s).flatMap fun here => (bareEmissions s catalog here).filterMap Emission.ambiguity? := by
  rw [emissions, List.filterMap_append, List.filterMap_eq_nil_iff.mpr fun e => ambiguity?_parameters,
    List.append_nil, textWords, List.filterMap_flatMap, List.flatMap_assoc]
  congr
  funext l
  rw [lineEmissions_eq, List.filterMap_append,
    List.filterMap_eq_nil_iff.mpr fun e => ambiguity?_readings, List.nil_append,
    List.filterMap_flatMap]

theorem filterMap_bareReferences (s : Source) (column : Name) (tables : List Name) (here : Span) :
    (bareReferences s column tables here).filterMap Emission.ambiguity? = [] :=
  List.filterMap_eq_nil_iff.mpr fun _ => ambiguity?_bareReferences

theorem mem_bareAmbiguities {s : Source} {catalog : Catalog} {here : Span} {a : Ambiguity}
    (h : a ∈ (bareEmissions s catalog here).filterMap Emission.ambiguity?) :
    Undecided s catalog here a ∧
      bareEmissions s catalog here =
        bareReferences s a.column a.provisional here ++ [.ambiguity a] := by
  rcases bareEmissions_cases s catalog here with ⟨column, tables, _, heq⟩ | ⟨b, hundecided, heq⟩
  · rw [heq, filterMap_bareReferences] at h
    cases h
  · rw [heq, List.filterMap_append, filterMap_bareReferences] at h
    cases List.mem_singleton.mp h
    exact ⟨hundecided, heq⟩

theorem ambiguity_of_emissions {s : Source} {catalog : Catalog} {a : Ambiguity}
    (h : a ∈ (emissions s catalog).filterMap Emission.ambiguity?) :
    ∃ l ∈ lines s.chars, ∃ here ∈ bareWords s l.span, Undecided s catalog here a ∧
      bareEmissions s catalog here =
        bareReferences s a.column a.provisional here ++ [.ambiguity a] := by
  rw [filterMap_emissions] at h
  obtain ⟨here, hhere, ha⟩ := List.mem_flatMap.mp h
  obtain ⟨l, hl, hhere⟩ := List.mem_flatMap.mp hhere
  exact ⟨l, hl, here, hhere, mem_bareAmbiguities ha⟩

theorem ambiguities_apart (uri : String) (cs : List Char) (scopes : FileScopes) (catalog : Catalog) :
    ((emissions (.ofText uri cs scopes) catalog).filterMap Emission.ambiguity?).Pairwise
      fun a b => a.place ≠ b.place := by
  rw [filterMap_emissions, List.pairwise_flatMap]
  constructor
  · intro here _
    rcases bareEmissions_cases (.ofText uri cs scopes) catalog here with
      ⟨column, tables, _, heq⟩ | ⟨a, _, heq⟩
    · rw [heq, filterMap_bareReferences]
      exact List.Pairwise.nil
    · rw [heq, List.filterMap_append, filterMap_bareReferences]
      exact List.pairwise_singleton _ a
  · refine textWords_ascending.imp_of_mem ?_
    intro here next hhere hnext hle a ha b hb
    obtain ⟨l, hl, hhere⟩ := List.mem_flatMap.mp hhere
    obtain ⟨l', hl', hnext⟩ := List.mem_flatMap.mp hnext
    have hin := nameIn_of_mem_bareWords hl hhere
    have hin' := nameIn_of_mem_bareWords hl' hnext
    rw [(mem_bareAmbiguities ha).1.place, (mem_bareAmbiguities hb).1.place]
    exact hin.extent_ne hin.bareSpan_start hin'.bareSpan_start (.inl hle)

end Usage

/-! ### Parameters -/

theorem Routine.head?_variableAt {l : Lexeme} (h : l.token.isVariable = true) :
    (variableAt l).name.chars.head? = some '@' := by
  rw [variableAt]
  cases ht : l.token with
  | word value quote =>
    rw [ht] at h
    cases quote with
    | some q => cases h
    | none =>
      simp only [Token.isVariable, Token.bareWord?, Option.any_some, Bool.and_eq_true,
        beq_iff_eq] at h
      obtain ⟨rest, rfl⟩ := List.head?_eq_some_iff.mp h.1
      exact head?_normalizeName_at rest
  | _ =>
    rw [ht] at h
    cases h

theorem Routine.isVariable_of_mem_header {prev : Token} {depth : Nat} {ls : List Lexeme}
    {v : Variable} (h : v ∈ (header prev depth ls).1) :
    ∃ l, l.token.isVariable = true ∧ v = variableAt l := by
  induction ls generalizing prev depth with
  | nil => cases h
  | cons l ls ih =>
    rw [header] at h
    simp only at h
    split at h
    · cases h
    · split at h
      · rename_i hvariable
        rcases List.mem_cons.mp h with rfl | h
        · rw [Bool.and_eq_true] at hvariable
          exact ⟨l, hvariable.1, rfl⟩
        · exact ih h
      · exact ih h

theorem FileScopes.head?_parameter {cs : List Char} {routine : Routine}
    (hroutine : routine ∈ (FileScopes.ofText cs).routines) {v : Variable}
    (h : v ∈ routine.parameters ++ routine.usages) : v.name.chars.head? = some '@' := by
  obtain ⟨⟨boundary, ls⟩, _, hsegment⟩ := List.mem_filterMap.mp hroutine
  cases boundary with
  | other => cases hsegment
  | routine kind lead =>
    cases hsegment
    rcases List.mem_append.mp h with h | h
    · obtain ⟨l, hl, rfl⟩ := Routine.isVariable_of_mem_header h
      exact Routine.head?_variableAt hl
    · obtain ⟨l, hl, rfl⟩ := List.mem_map.mp (List.mem_of_mem_filter h)
      exact Routine.head?_variableAt (List.mem_filter.mp hl).2

theorem Name.head?_qualified {table column : Name} (h : table.isLocal = false) :
    (Name.qualified table column).chars.head? ≠ some '@' := by
  obtain ⟨chars⟩ := table
  cases chars with
  | nil => exact nofun
  | cons c chars =>
    intro heq
    cases heq
    cases h

/-! ### Extractions -/

/-- A reference of a text that stands where an ambiguity does, and has one of its names, is that of
a column. -/
theorem kind_of_provisional {uri : String} {cs : List Char} {catalog : Catalog} {a : Ambiguity}
    (ha : a ∈ (emissions (.ofText uri cs (.ofText cs)) catalog).filterMap Emission.ambiguity?)
    {r : Reference} (hr : .reference r ∈ emissions (.ofText uri cs (.ofText cs)) catalog)
    (hplace : r.place = a.place)
    (hname : ∃ table ∈ a.provisional, r.name = Name.qualified table a.column) : r.kind = .column := by
  obtain ⟨l, hl, here, hhere, hundecided, _⟩ := ambiguity_of_emissions ha
  have hin := nameIn_of_mem_bareWords hl hhere
  have hstands : StandsIn (.ofText uri cs (.ofText cs)) here (.reference r) :=
    ⟨_, hplace.trans hundecided.place, hin.bareSpan_start⟩
  -- what the first readings claim stands elsewhere
  have helsewhere : ∀ {l' : Text.Line} {claimed : Span}, l' ∈ lines cs →
      claimed ∈ claimedFirst (.ofText uri cs (.ofText cs)) l'.span →
      ¬StandsIn (.ofText uri cs (.ofText cs)) claimed (.reference r) := by
    intro l' claimed hl' hclaimed hother
    have hapart := bareWord_apart hl hl' hhere (List.mem_append_left _ hclaimed)
    exact hin.emission_ne hstands hother hapart rfl
  rcases emissions_cases hr with
    ⟨l', hl', ⟨claimed, hc, he⟩ | ⟨claimed, hc, he⟩ | ⟨claimed, _, he⟩ | ⟨word, _, he⟩⟩ |
      ⟨routine, hroutine, v, hv, he⟩
  · have hclaimed := List.mem_append_left (calls (.ofText uri cs (.ofText cs)) l'.span).claimed hc
    exact absurd ((nameIn_of_mem_claimedFirst hl' hclaimed).standsIn_table he) (helsewhere hl' hclaimed)
  · have hclaimed := List.mem_append_right (tables (.ofText uri cs (.ofText cs)) l'.span).claimed hc
    exact absurd ((nameIn_of_mem_claimedFirst hl' hclaimed).standsIn_call he) (helsewhere hl' hclaimed)
  · obtain ⟨name, last, _, he⟩ := qualifiedEmission?_eq_some he
    cases he
    rfl
  · obtain ⟨name, he⟩ := reference_of_mem_bareEmissions he
    cases he
    rfl
  · cases he
    obtain ⟨table, htable, hname⟩ := hname
    have hhead := FileScopes.head?_parameter hroutine hv
    rw [show v.name = Name.qualified table a.column from hname] at hhead
    exact absurd hhead (Name.head?_qualified (hundecided.global table htable))

theorem sound_extractReferences (uri : String) (cs : List Char) (catalog : Catalog) (limit : Nat) :
    (extractReferences uri cs (.ofText cs) catalog limit).Sound uri := by
  have hcollected := collected_extractReferences uri cs (.ofText cs) catalog limit
  refine ⟨fun r => uri_of_mem_extractReferences, hcollected.covered, ?_, ?_, ?_⟩
  · intro a ha
    obtain ⟨_, _, _, _, hundecided, _⟩ := ambiguity_of_emissions (hcollected.ambiguous.subset ha)
    exact hundecided.provided
  · exact (ambiguities_apart uri cs (.ofText cs) catalog).sublist hcollected.ambiguous
  · intro a ha r hr hplace hname
    exact kind_of_provisional (hcollected.ambiguous.subset ha) (hcollected.emitted r hr) hplace hname

end SqlAtlas
