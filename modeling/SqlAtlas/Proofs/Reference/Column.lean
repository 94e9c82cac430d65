import SqlAtlas.Proofs.Reference.Prefix
import SqlAtlas.Proofs.Reference.Soundness

/-!
# Ambiguities and columns

A qualified column stands alone at its place. So a place with several columns is that of a bare word,
and they are the columns of the tables that the ambiguity of the word leaves open.
-/

namespace SqlAtlas

set_option autoImplicit false

open Text Usage

namespace Usage

inductive ColumnAt (s : Source) (catalog : Catalog) (r : Reference) (here : Span) : Prop where
  | qualified {l : Text.Line} (hl : l ∈ lines s.chars)
      (hhere : here ∈ (qualified s (claimedFirst s l.span) l.span).claimed)
      (he : qualifiedEmission? s here = some (.reference r))
  | bare (hhere : here ∈ textWords s) (he : .reference r ∈ bareEmissions s catalog here)

theorem exists_columnAt {s : Source} {catalog : Catalog} {r : Reference}
    (h : .reference r ∈ emissions s catalog) (hkind : r.kind = .column) :
    ∃ here, ColumnAt s catalog r here := by
  rcases emissions_cases h with
    ⟨l, hl, ⟨here, _, he⟩ | ⟨here, _, he⟩ | ⟨here, hhere, he⟩ | ⟨here, hhere, he⟩⟩ | ⟨_, _, v, _, he⟩
  · cases (tableEmission?_name he).1.symm.trans hkind
  · cases (callEmission?_name he).1.symm.trans hkind
  · exact ⟨here, .qualified hl hhere he⟩
  · exact ⟨here, .bare (List.mem_flatMap.mpr ⟨l, hl, hhere⟩) he⟩
  · cases he
    cases hkind

/-- Two of some ranges in order are the same or share no byte. -/
theorem eq_or_apart {names : List Span} (h : names.Pairwise fun here next => here.stop ≤ next.start)
    {here here' : Span} (hhere : here ∈ names) (hhere' : here' ∈ names) :
    here = here' ∨ here.stop ≤ here'.start ∨ here'.stop ≤ here.start := by
  have hsymm : Std.Symm fun here here' : Span => here.stop ≤ here'.start ∨ here'.stop ≤ here.start :=
    ⟨fun _ _ => Or.symm⟩
  have happart : names.Pairwise fun here here' => here.stop ≤ here'.start ∨ here'.stop ≤ here.start :=
    h.imp Or.inl
  by_cases hsame : here = here'
  · exact .inl hsame
  · exact .inr (happart.forall hhere hhere' hsame)

section

variable {uri : String} {cs : List Char} {scopes : FileScopes} {catalog : Catalog} {r r' : Reference}
  {here word : Span}

theorem nameIn_of_mem_textWords (h : here ∈ textWords (.ofText uri cs scopes)) :
    ∃ l ∈ lines cs, here ∈ bareWords (.ofText uri cs scopes) l.span ∧
      NameIn (.ofText uri cs scopes) l.span here := by
  obtain ⟨l, hl, hhere⟩ := List.mem_flatMap.mp h
  exact ⟨l, hl, hhere, nameIn_of_mem_bareWords hl hhere⟩

theorem ColumnAt.mem_bare (h : ColumnAt (.ofText uri cs scopes) catalog r here)
    (hword : word ∈ textWords (.ofText uri cs scopes))
    (hstands : StandsIn (.ofText uri cs scopes) word (.reference r)) :
    .reference r ∈ bareEmissions (.ofText uri cs scopes) catalog word := by
  obtain ⟨l', hl', hbare, hin⟩ := nameIn_of_mem_textWords hword
  cases h with
  | qualified hl hhere he =>
    have hapart := bareWord_apart hl' hl hbare (List.mem_append_right _ hhere)
    have hin' := nameIn_of_mem_qualified hl hhere
    exact absurd rfl (hin.emission_ne hstands (hin'.standsIn_qualified he) hapart)
  | bare hhere he =>
    rcases eq_or_apart textWords_ascending hword hhere with rfl | hapart
    · exact he
    · obtain ⟨_, _, _, hin'⟩ := nameIn_of_mem_textWords hhere
      exact absurd rfl (hin.emission_ne hstands (hin'.standsIn_bare he) hapart)

theorem eq_of_qualified {l l' : Text.Line} (hl : l ∈ lines cs) (hl' : l' ∈ lines cs) {here here' : Span}
    (hhere : here ∈ (qualified (.ofText uri cs scopes) (claimedFirst (.ofText uri cs scopes) l.span)
      l.span).claimed)
    (hhere' : here' ∈ (qualified (.ofText uri cs scopes) (claimedFirst (.ofText uri cs scopes) l'.span)
      l'.span).claimed)
    (he : qualifiedEmission? (.ofText uri cs scopes) here = some (.reference r))
    (he' : qualifiedEmission? (.ofText uri cs scopes) here' = some (.reference r'))
    (hplace : r.place = r'.place) : r = r' := by
  have hin := nameIn_of_mem_qualified hl hhere
  have hin' := nameIn_of_mem_qualified hl' hhere'
  have hmeet : ¬(here.stop ≤ here'.start ∨ here'.stop ≤ here.start) := fun hapart =>
    hin.place_ne (hin.standsIn_qualified he) (hin'.standsIn_qualified he') hapart hplace
  by_cases hsame : l = l'
  · subst hsame
    obtain rfl := (eq_or_apart (claimed_ascending hl _) hhere hhere').resolve_right hmeet
    rw [he] at he'
    cases he'
    rfl
  · exact absurd (hin.apart_of_ne hl hl' hsame hin') hmeet

/-- Columns of one bare word that differ belong to tables that an ambiguity leaves open. -/
theorem exists_ambiguity_of_bare (hword : word ∈ textWords (.ofText uri cs scopes))
    (he : .reference r ∈ bareEmissions (.ofText uri cs scopes) catalog word)
    (he' : .reference r' ∈ bareEmissions (.ofText uri cs scopes) catalog word) (hne : r ≠ r') :
    ∃ a ∈ (emissions (.ofText uri cs scopes) catalog).filterMap Emission.ambiguity?,
      a.place = r.place := by
  rcases bareEmissions_cases (.ofText uri cs scopes) catalog word with
    ⟨column, tables, hfew, heq⟩ | ⟨a, hundecided, heq⟩
  · rw [heq] at he he'
    obtain ⟨t, ht, hr⟩ := List.mem_map.mp he
    obtain ⟨t', ht', hr'⟩ := List.mem_map.mp he'
    obtain ⟨only, rfl⟩ := List.length_eq_one_iff.mp
      (Nat.le_antisymm hfew (List.length_pos_of_mem ht))
    rw [List.mem_singleton.mp ht, ← List.mem_singleton.mp ht', hr'] at hr
    cases hr
    exact absurd rfl hne
  · obtain ⟨name, hr⟩ := reference_of_mem_bareEmissions he
    cases hr
    refine ⟨a, ?_, hundecided.place⟩
    rw [filterMap_emissions, List.mem_flatMap]
    refine ⟨word, hword, List.mem_filterMap.mpr ⟨.ambiguity a, ?_, rfl⟩⟩
    rw [heq]
    exact List.mem_concat_self

theorem exists_ambiguity_of_columns {here' : Span}
    (h : ColumnAt (.ofText uri cs scopes) catalog r here)
    (h' : ColumnAt (.ofText uri cs scopes) catalog r' here') (hne : r ≠ r') (hplace : r.place = r'.place) :
    ∃ a ∈ (emissions (.ofText uri cs scopes) catalog).filterMap Emission.ambiguity?,
      a.place = r.place := by
  have hstands : ∀ {r r' : Reference} {word : Span}, word ∈ textWords (.ofText uri cs scopes) →
      .reference r ∈ bareEmissions (.ofText uri cs scopes) catalog word → r.place = r'.place →
        StandsIn (.ofText uri cs scopes) word (.reference r') := by
    intro r r' word hword he hplace
    obtain ⟨_, _, _, hin⟩ := nameIn_of_mem_textWords hword
    obtain ⟨p, hp, hbounds⟩ := hin.standsIn_bare he
    exact ⟨p, hplace.symm.trans hp, hbounds⟩
  cases h' with
  | bare hhere' he' =>
    have he := h.mem_bare hhere' (hstands hhere' he' hplace.symm)
    exact exists_ambiguity_of_bare hhere' he he' hne
  | qualified hl' hhere' he' =>
    cases h with
    | bare hhere he =>
      have hcolumn : ColumnAt (.ofText uri cs scopes) catalog r' here' := .qualified hl' hhere' he'
      exact exists_ambiguity_of_bare hhere he (hcolumn.mem_bare hhere (hstands hhere he hplace)) hne
    | qualified hl hhere he => exact absurd (eq_of_qualified hl hl' hhere hhere' he he' hplace) hne

end

end Usage

/-- An ambiguity tells, of the references of a text, which columns stand at its place: that of each
table that it leaves open. -/
structure Ambiguity.Describes (uri : String) (catalog : Catalog) (references : List Reference)
    (a : Ambiguity) : Prop where
  provided : a.provisional ≠ []
  nodup : a.provisional.Nodup
  candidates : a.provisional ⊆ a.candidates
  global : ∀ table ∈ a.provisional, table.isLocal = false
  owned : ∀ table ∈ a.provisional, catalog table a.column = true
  columns : ∀ r, (r ∈ references ∧ r.kind = .column ∧ r.place = a.place) ↔
    ∃ table ∈ a.provisional, r = ⟨Name.qualified table a.column, uri, a.place, .column⟩

section

variable (uri : String) (cs : List Char) (catalog : Catalog) (limit : Nat)

theorem describes_of_mem_ambiguities {a : Ambiguity}
    (ha : a ∈ (extractReferences uri cs (.ofText cs) catalog limit).ambiguities) :
    a.Describes uri catalog (extractReferences uri cs (.ofText cs) catalog limit).references := by
  have hcollected := collected_extractReferences uri cs (.ofText cs) catalog limit
  obtain ⟨l, hl, word, hword, hundecided, hbare⟩ :=
    ambiguity_of_emissions (hcollected.ambiguous.subset ha)
  refine ⟨hundecided.provided, hundecided.nodup, hundecided.sublist.subset, hundecided.global,
    hundecided.owned, fun r => ⟨?_, ?_⟩⟩
  · rintro ⟨hr, hkind, hplace⟩
    obtain ⟨here, hcolumn⟩ := exists_columnAt (hcollected.emitted r hr) hkind
    have hin := nameIn_of_mem_bareWords hl hword
    have hstands : StandsIn (.ofText uri cs (.ofText cs)) word (.reference r) :=
      ⟨_, hplace.trans hundecided.place, hin.bareSpan_start⟩
    have he := hcolumn.mem_bare (List.mem_flatMap.mpr ⟨l, hl, hword⟩) hstands
    rw [hbare, List.mem_append, List.mem_singleton] at he
    obtain ⟨table, htable, hr⟩ := List.mem_map.mp (he.resolve_right nofun)
    refine ⟨table, htable, ?_⟩
    rw [hundecided.place]
    cases hr
    rfl
  · rintro ⟨table, htable, rfl⟩
    refine ⟨hcollected.covered a ha _ ?_, rfl, rfl⟩
    exact Ambiguity.mem_provisionalReferences.mpr ⟨table, htable, rfl⟩

/-- Nothing is left out of an extraction that is not truncated, and no ambiguity either. -/
theorem mem_ambiguities_of_complete {a : Ambiguity}
    (hcomplete : (extractReferences uri cs (.ofText cs) catalog limit).truncated = false)
    (ha : a ∈ (emissions (.ofText uri cs (.ofText cs)) catalog).filterMap Emission.ambiguity?) :
    a ∈ (extractReferences uri cs (.ofText cs) catalog limit).ambiguities := by
  have hcollected := collected_extractReferences uri cs (.ofText cs) catalog limit
  have hcapped := capped_extractReferences uri cs catalog limit
  rw [hcapped.ambiguities, List.mem_filter, ← hcapped.references, Ambiguity.isCovered,
    decide_eq_true_eq]
  refine ⟨ha, fun r hr => hcollected.complete hcomplete r ?_ (Extraction.name_nonempty_of_provisional hr)⟩
  have hannounced : Announced uri (emissions (.ofText uri cs (.ofText cs)) catalog) :=
    announced_emissions (.ofText uri cs (.ofText cs)) catalog
  obtain ⟨pre, post, hsplit, hfront⟩ := hannounced.exists_front ha
  rw [hsplit]
  exact List.mem_append_left _ (hfront r hr)

/-- The ambiguities of a text stand at different places and describe the columns there, and if nothing
is left out there is one wherever more than one column stands. -/
theorem ambiguities_of_columns :
    (extractReferences uri cs (.ofText cs) catalog limit).ambiguities.Pairwise
      (fun a b => a.place ≠ b.place) ∧
    (∀ a ∈ (extractReferences uri cs (.ofText cs) catalog limit).ambiguities,
      a.Describes uri catalog (extractReferences uri cs (.ofText cs) catalog limit).references) ∧
    ((extractReferences uri cs (.ofText cs) catalog limit).truncated = false →
      ∀ r ∈ (extractReferences uri cs (.ofText cs) catalog limit).references,
      ∀ r' ∈ (extractReferences uri cs (.ofText cs) catalog limit).references,
        r ≠ r' → r.kind = .column → r'.kind = .column → r.place = r'.place →
          ∃ a ∈ (extractReferences uri cs (.ofText cs) catalog limit).ambiguities,
            a.place = r.place) := by
  refine ⟨(sound_extractReferences uri cs catalog limit).apart,
    fun a => describes_of_mem_ambiguities uri cs catalog limit, ?_⟩
  intro hcomplete r hr r' hr' hne hkind hkind' hplace
  have hcollected := collected_extractReferences uri cs (.ofText cs) catalog limit
  obtain ⟨here, hcolumn⟩ := exists_columnAt (hcollected.emitted r hr) hkind
  obtain ⟨here', hcolumn'⟩ := exists_columnAt (hcollected.emitted r' hr') hkind'
  obtain ⟨a, ha, hat⟩ := exists_ambiguity_of_columns hcolumn hcolumn' hne hplace
  exact ⟨a, mem_ambiguities_of_complete uri cs catalog limit hcomplete ha, hat⟩

end

/-- A column of two joined tables. -/
example :
    let text := "SELECT id FROM a JOIN b".toList
    let x := extractReferences "q.sql" text (.ofText text) (fun _ column => column == .ofText "id") 4
    x.truncated = false ∧
      x.ambiguities.map (fun a => (a.place, a.provisional)) = [(⟨0, 7, 9⟩, [.ofText "a", .ofText "b"])] := by
  decide +kernel

end SqlAtlas
