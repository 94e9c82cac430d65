import SqlAtlas.Proofs.Reference.Extraction
import SqlAtlas.Proofs.Scope.Names

/-!
# What a file emits

Tables, calls and qualified columns give references only. A bare column gives a reference for each
table that has it, and after them at most one ambiguity. All references carry the file's own name.
-/

namespace SqlAtlas

namespace Usage

set_option autoImplicit false

open Text Pattern

/-- The place of a bare column: the inside of its delimiters. -/
def bareSpan (s : Source) (here : Span) : Span :=
  ((partSpans (slice s.chars here)).getLast?.map fun p =>
    (⟨here.start + p.start, here.start + p.stop⟩ : Span)).getD here

def bareReferences (s : Source) (column : Name) (tables : List Name) (here : Span) : List Emission :=
  tables.map fun t => s.emit (.qualified t column) .column (bareSpan s here)

/-- What the ambiguity of a bare column says: more than one candidate table of its statement has the
column, and those of them that are not local are left open. -/
structure Undecided (s : Source) (catalog : Catalog) (here : Span) (a : Ambiguity) : Prop where
  place : a.place = extent s.chars (bareSpan s here)
  statement : ∃ scope ∈ s.scopes.statements, a.candidates = scope.candidates
  sublist : a.provisional.Sublist a.candidates
  provided : a.provisional ≠ []
  global : ∀ t ∈ a.provisional, t.isLocal = false
  owned : ∀ t ∈ a.provisional, catalog t a.column = true

/-- A bare column gives a reference at most, or references to several tables and an ambiguity about
them. -/
theorem bareEmissions_cases (s : Source) (catalog : Catalog) (here : Span) :
    (∃ column tables, tables.length ≤ 1 ∧
      bareEmissions s catalog here = bareReferences s column tables here) ∨
    ∃ a : Ambiguity, Undecided s catalog here a ∧
      bareEmissions s catalog here =
        bareReferences s a.column a.provisional here ++ [.ambiguity a] := by
  rw [bareEmissions]
  cases hscope : s.scopes.scopeAt? here.start with
  | none => exact .inl ⟨default, [], Nat.zero_le 1, rfl⟩
  | some scope =>
    simp only
    split
    · exact .inl ⟨default, [], Nat.zero_le 1, rfl⟩
    · generalize hcolumn : Name.ofChars (slice s.chars here) = column
      split
      · rename_i hseveral
        simp only [Bool.and_eq_true, Bool.not_eq_true', List.isEmpty_eq_false_iff] at hseveral
        refine .inr ⟨⟨extent s.chars (bareSpan s here), column,
          (owners catalog scope column).filter fun t => !t.isLocal,
          scope.candidates, scope.aliases, slice s.chars scope.span⟩, ⟨rfl, ?_, ?_, hseveral.2, ?_, ?_⟩, rfl⟩
        · exact ⟨scope, FileScopes.mem_of_scopeAt? hscope, rfl⟩
        · exact List.filter_sublist.trans List.filter_sublist
        · intro t ht
          simpa using (List.mem_filter.mp ht).2
        · intro t ht
          obtain ⟨howner, hglobal⟩ := List.mem_filter.mp ht
          have hhas := (List.mem_filter.mp howner).2
          rwa [if_neg (by simpa using hglobal)] at hhas
      · rename_i hfew
        refine .inl ⟨column, (owners catalog scope column).filter fun t => !t.isLocal, ?_, ?_⟩
        · simp only [Bool.and_eq_true, decide_eq_true_eq, Bool.not_eq_true', not_and,
            Bool.not_eq_false, List.isEmpty_iff] at hfew
          by_cases hall : 1 < (owners catalog scope column).length
          · rw [hfew hall]
            exact Nat.zero_le 1
          · exact Nat.le_trans (List.length_filter_le _ _) (Nat.not_lt.mp hall)
        · rw [List.append_nil]
          rfl

theorem ambiguity?_bareReferences {s : Source} {column : Name} {tables : List Name} {here : Span}
    {e : Emission} (h : e ∈ bareReferences s column tables here) : e.ambiguity? = none := by
  obtain ⟨t, _, rfl⟩ := List.mem_map.mp h
  rfl

/-- The references of a bare column are all at its place. -/
theorem reference_of_mem_bareEmissions {s : Source} {catalog : Catalog} {here : Span} {r : Reference}
    (h : .reference r ∈ bareEmissions s catalog here) :
    ∃ name, .reference r = s.emit name .column (bareSpan s here) := by
  have hbare : ∀ {column tables}, .reference r ∈ bareReferences s column tables here →
      ∃ name, .reference r = s.emit name .column (bareSpan s here) := by
    intro column tables hr
    obtain ⟨t, _, heq⟩ := List.mem_map.mp hr
    exact ⟨_, heq.symm⟩
  rcases bareEmissions_cases s catalog here with ⟨column, tables, _, heq⟩ | ⟨a, _, heq⟩
  · rw [heq] at h
    exact hbare h
  · rw [heq, List.mem_append, List.mem_singleton] at h
    exact hbare (h.resolve_right nofun)

theorem tableEmission?_eq_some {s : Source} {here : Span} {e : Emission}
    (h : tableEmission? s here = some e) : ∃ name p,
      lastPart? (slice s.chars here) here.start = some p ∧ e = s.emit name .table p := by
  rw [tableEmission?] at h
  split at h
  · cases h
  · simp only at h
    split at h
    · cases h
    · obtain ⟨p, hp, rfl⟩ := Option.map_eq_some_iff.mp h
      exact ⟨_, p, hp, rfl⟩

theorem callEmission?_eq_some {s : Source} {here : Span} {e : Emission}
    (h : callEmission? s here = some e) : ∃ name p,
      lastPart? (slice s.chars here) here.start = some p ∧ e = s.emit name .routine p := by
  rw [callEmission?] at h
  split at h
  · cases h
  · obtain ⟨p, hp, rfl⟩ := Option.map_eq_some_iff.mp h
    exact ⟨_, p, hp, rfl⟩

theorem qualifiedColumn_eq_some {s : Source} {here last : Span} {e : Emission}
    {qualifier : List Char} {parts : Nat}
    (h : (if isLocalSpelling qualifier = true then none
      else (qualifierTable? s (Name.ofChars qualifier) parts here.start).bind fun table =>
        if table.isLocal = true then none
        else some (s.emit (table.qualified (Name.ofChars (slice (slice s.chars here) last))) .column
          ⟨here.start + last.start, here.start + last.stop⟩)) = some e) :
    ∃ name, e = s.emit name .column ⟨here.start + last.start, here.start + last.stop⟩ := by
  split at h
  · cases h
  · obtain ⟨table, _, h⟩ := Option.bind_eq_some_iff.mp h
    split at h
    · cases h
    · cases h
      exact ⟨_, rfl⟩

theorem qualifiedEmission?_eq_some {s : Source} {here : Span} {e : Emission}
    (h : qualifiedEmission? s here = some e) : ∃ name last,
      (partSpans (slice s.chars here)).getLast? = some last ∧
      e = s.emit name .column ⟨here.start + last.start, here.start + last.stop⟩ := by
  unfold qualifiedEmission? at h
  simp only [Option.pure_def, Option.bind_eq_bind, Option.bind_none, Option.bind_some] at h
  split at h
  · cases h
  · split at h
    · rename_i q c hspans
      obtain ⟨name, he⟩ := qualifiedColumn_eq_some h
      exact ⟨name, c, by rw [hspans]; rfl, he⟩
    · rename_i q t c hspans
      obtain ⟨name, he⟩ := qualifiedColumn_eq_some h
      exact ⟨name, c, by rw [hspans]; rfl, he⟩
    · cases h

/-! ### The readings of a line -/

def claimedFirst (s : Source) (line : Span) : List Span := (tables s line).claimed ++ (calls s line).claimed

/-- The ranges that a bare column must leave alone. -/
def claimedIn (s : Source) (line : Span) : List Span :=
  claimedFirst s line ++ (qualified s (claimedFirst s line) line).claimed

def words (s : Source) (line : Span) : List Span :=
  (findAll (fun _ cs => (identifier? false cs).map fun n => (n, n - 1)) line.start
    (slice s.masked line)).map fun f => spanAfter f.offset (dropBytes f.offset s.masked) 0 f.value

def bareWords (s : Source) (line : Span) : List Span :=
  (words s line).filter (mayBeColumn s (claimedIn s line) line)

theorem lineEmissions_eq (s : Source) (catalog : Catalog) (line : Span) :
    lineEmissions s catalog line =
      (tables s line).emissions ++ (calls s line).emissions ++
        (qualified s (claimedFirst s line) line).emissions ++
        (bareWords s line).flatMap (bareEmissions s catalog) := rfl

theorem emissions_cases {s : Source} {catalog : Catalog} {e : Emission}
    (h : e ∈ emissions s catalog) :
    (∃ l ∈ lines s.chars,
      (∃ here ∈ (tables s l.span).claimed, tableEmission? s here = some e) ∨
      (∃ here ∈ (calls s l.span).claimed, callEmission? s here = some e) ∨
      (∃ here ∈ (qualified s (claimedFirst s l.span) l.span).claimed,
        qualifiedEmission? s here = some e) ∨
      ∃ here ∈ bareWords s l.span, e ∈ bareEmissions s catalog here) ∨
    ∃ routine ∈ s.scopes.routines, ∃ v ∈ routine.parameters ++ routine.usages,
      e = s.emit v.name .parameter v.span := by
  rcases List.mem_append.mp h with h | h
  · obtain ⟨l, hl, h⟩ := List.mem_flatMap.mp h
    refine .inl ⟨l, hl, ?_⟩
    rw [lineEmissions_eq, List.mem_append, List.mem_append, List.mem_append] at h
    rcases h with ((h | h) | h) | h
    · exact .inl (List.mem_filterMap.mp h)
    · exact .inr (.inl (List.mem_filterMap.mp h))
    · exact .inr (.inr (.inl (List.mem_filterMap.mp h)))
    · exact .inr (.inr (.inr (List.mem_flatMap.mp h)))
  · obtain ⟨routine, hroutine, h⟩ := List.mem_flatMap.mp h
    obtain ⟨v, hv, rfl⟩ := List.mem_map.mp h
    exact .inr ⟨routine, hroutine, v, hv, rfl⟩

theorem uri_of_mem_emissions {s : Source} {catalog : Catalog} {r : Reference}
    (h : .reference r ∈ emissions s catalog) : r.uri = s.uri := by
  have hemit : ∀ {name kind here}, Emission.reference r = s.emit name kind here → r.uri = s.uri := by
    intro name kind here heq
    cases heq
    rfl
  rcases emissions_cases h with
    ⟨l, _, ⟨here, _, he⟩ | ⟨here, _, he⟩ | ⟨here, _, he⟩ | ⟨here, _, he⟩⟩ | ⟨routine, _, v, _, he⟩
  · obtain ⟨name, p, _, he⟩ := tableEmission?_eq_some he
    exact hemit he
  · obtain ⟨name, p, _, he⟩ := callEmission?_eq_some he
    exact hemit he
  · obtain ⟨name, last, _, he⟩ := qualifiedEmission?_eq_some he
    exact hemit he
  · obtain ⟨name, he⟩ := reference_of_mem_bareEmissions he
    exact hemit he
  · exact hemit he

/-! ### Ambiguities -/

theorem ambiguity?_readings {s : Source} {line : Span} {e : Emission}
    (h : e ∈ (tables s line).emissions ++ (calls s line).emissions ++
      (qualified s (claimedFirst s line) line).emissions) : e.ambiguity? = none := by
  rw [List.mem_append, List.mem_append] at h
  rcases h with (h | h) | h
  · obtain ⟨here, _, h⟩ := List.mem_filterMap.mp h
    obtain ⟨name, p, _, rfl⟩ := tableEmission?_eq_some h
    rfl
  · obtain ⟨here, _, h⟩ := List.mem_filterMap.mp h
    obtain ⟨name, p, _, rfl⟩ := callEmission?_eq_some h
    rfl
  · obtain ⟨here, _, h⟩ := List.mem_filterMap.mp h
    obtain ⟨name, last, _, rfl⟩ := qualifiedEmission?_eq_some h
    rfl

theorem ambiguity?_parameters {s : Source} {routines : List Routine} {e : Emission}
    (h : e ∈ routines.flatMap (parameterEmissions s)) : e.ambiguity? = none := by
  obtain ⟨routine, _, h⟩ := List.mem_flatMap.mp h
  obtain ⟨v, _, rfl⟩ := List.mem_map.mp h
  rfl

/-- What holds in front of the ambiguity of every bare column holds in front of every ambiguity of a
file. -/
theorem preceded_emissions {P : List Emission → Ambiguity → Prop}
    (hmono : ∀ front {pre a}, P pre a → P (front ++ pre) a) (s : Source) (catalog : Catalog)
    (hbare : ∀ {here : Span} {a : Ambiguity}, Undecided s catalog here a →
      P (bareReferences s a.column a.provisional here) a) :
    Preceded P (emissions s catalog) := by
  have hword : ∀ here, Preceded P (bareEmissions s catalog here) := by
    intro here
    rcases bareEmissions_cases s catalog here with ⟨column, tables, _, heq⟩ | ⟨a, hundecided, heq⟩
    · rw [heq]
      exact preceded_of_references fun e => ambiguity?_bareReferences
    · rw [heq]
      exact preceded_concat (fun e => ambiguity?_bareReferences) (hbare hundecided)
  apply Preceded.append hmono
  · apply preceded_flatMap hmono
    intro l _
    rw [lineEmissions_eq]
    apply Preceded.append hmono
    · exact preceded_of_references fun e => ambiguity?_readings
    · exact preceded_flatMap hmono _ _ fun here _ => hword here
  · exact preceded_of_references fun e => ambiguity?_parameters

theorem announced_emissions (s : Source) (catalog : Catalog) :
    Announced s.uri (emissions s catalog) := by
  refine preceded_emissions (fun front _ _ h r hr => List.mem_append_right front (h r hr)) s catalog ?_
  intro here a hundecided r hr
  obtain ⟨t, ht, rfl⟩ := Ambiguity.mem_provisionalReferences.mp hr
  rw [hundecided.place]
  exact List.mem_map.mpr ⟨t, ht, rfl⟩

end Usage

theorem collected_extractReferences (uri : String) (cs : List Char) (scopes : FileScopes)
    (catalog : Catalog) (limit : Nat) :
    Extraction.Collected uri (Usage.emissions (.ofText uri cs scopes) catalog)
      (extractReferences uri cs scopes catalog limit) :=
  Extraction.collected_ofEmissions limit (Usage.announced_emissions (.ofText uri cs scopes) catalog)

theorem uri_of_mem_extractReferences {uri : String} {cs : List Char} {scopes : FileScopes}
    {catalog : Catalog} {limit : Nat} {r : Reference}
    (h : r ∈ (extractReferences uri cs scopes catalog limit).references) : r.uri = uri :=
  Usage.uri_of_mem_emissions ((collected_extractReferences uri cs scopes catalog limit).emitted r h)

end SqlAtlas
