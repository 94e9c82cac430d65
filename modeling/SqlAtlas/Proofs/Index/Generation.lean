import SqlAtlas.Proofs.Index.Operation

/-!
# Generations

One counter serves all files. Every publication takes the next number, and no number is given
twice, so that a generation is current for its file only until the file is next published or
removed. A correction for an earlier generation has no effect, even if the file has come back with
the same text.
-/

namespace SqlAtlas

set_option autoImplicit false

open Text

namespace SymbolIndex

theorem generation?_publishDefinitions (x : SymbolIndex) (uri uri' : String)
    (symbols : List SymbolDef) : (x.publishDefinitions uri symbols).2.generation? uri' =
      if uri = uri' then some (x.lastGeneration + 1) else x.generation? uri' :=
  Dict.get?_insert x.generations uri uri' (x.lastGeneration + 1)

theorem generation?_replaceFile (x : SymbolIndex) (uri uri' : String) (text : List Char)
    (symbols : List SymbolDef) (scopes : FileScopes) (limit : Nat) :
    (x.replaceFile uri text symbols scopes limit).2.generation? uri' =
      if uri = uri' then some (x.lastGeneration + 1) else x.generation? uri' :=
  Dict.get?_insert x.generations uri uri' (x.lastGeneration + 1)

theorem replaceFile_generation {x index : SymbolIndex} {uri : String} {text : List Char}
    {symbols : List SymbolDef} {scopes : FileScopes} {limit : Nat} {p : PublishedFile}
    (h : x.replaceFile uri text symbols scopes limit = (p, index)) :
    p.generation = x.lastGeneration + 1 ∧ index.lastGeneration = p.generation ∧
      ∀ uri', index.generation? uri' = if uri = uri' then some p.generation else x.generation? uri' := by
  cases h
  exact ⟨rfl, rfl, fun uri' => generation?_replaceFile x uri uri' text symbols scopes limit⟩

theorem generation?_removeFile (x : SymbolIndex) (uri uri' : String) :
    (x.removeFile uri).generation? uri' = if uri = uri' then none else x.generation? uri' :=
  Dict.get?_erase x.generations uri uri'

theorem generations_applyCorrection (x : SymbolIndex) (uri : String) (generation : Nat)
    (place : Extent) (column keep : Name) (provisional : List Name) :
    (x.applyCorrection uri generation place column keep provisional).2.generations = x.generations ∧
      (x.applyCorrection uri generation place column keep provisional).2.lastGeneration =
        x.lastGeneration := by
  rcases applyCorrection_cases x uri generation place column keep provisional with
    ⟨_, h⟩ | ⟨_, _, h⟩ | ⟨_, _, n, h⟩
  · rw [h]
    exact ⟨rfl, rfl⟩
  · rw [h]
    exact ⟨rfl, rfl⟩
  · rw [h, retractAll_references]
    exact ⟨rfl, rfl⟩

/-- No file has a generation that was not given yet. -/
def Issued (x : SymbolIndex) : Prop :=
  ∀ uri generation, x.generation? uri = some generation → generation ≤ x.lastGeneration

theorem issued_empty : Issued {} := by
  intro uri generation h
  cases h

end SymbolIndex

namespace IndexOperation

open SymbolIndex

theorem lastGeneration_apply (x : SymbolIndex) (op : IndexOperation) :
    (op.apply x).lastGeneration = x.lastGeneration + (op.issued? x).toList.length := by
  cases op with
  | define uri symbols => rfl
  | replace uri text symbols scopes limit => rfl
  | remove uri => rfl
  | correct uri generation place column keep provisional =>
    exact (generations_applyCorrection x uri generation place column keep provisional).2

theorem issued?_eq_some {x : SymbolIndex} {op : IndexOperation} {uri : String} {generation : Nat}
    (h : op.issued? x = some (uri, generation)) :
    generation = x.lastGeneration + 1 ∧ (op.apply x).lastGeneration = generation := by
  cases op with
  | define u symbols =>
    cases h
    exact ⟨rfl, rfl⟩
  | replace u text symbols scopes limit =>
    cases h
    exact ⟨rfl, rfl⟩
  | remove u => cases h
  | correct u g place column keep provisional => cases h

/-- What an operation does to the generation of a file: a move takes it away or gives it the next
number, everything else leaves it. -/
theorem generation?_apply (x : SymbolIndex) (op : IndexOperation) (uri : String) :
    (op.Moves uri ∧ ((op.apply x).generation? uri = none ∨
      (op.apply x).generation? uri = some (x.lastGeneration + 1) ∧
        (op.apply x).lastGeneration = x.lastGeneration + 1)) ∨
    ¬op.Moves uri ∧ (op.apply x).generation? uri = x.generation? uri := by
  cases op with
  | define u symbols =>
    by_cases hu : u = uri
    · refine .inl ⟨hu, .inr ⟨?_, rfl⟩⟩
      rw [apply, generation?_publishDefinitions, if_pos hu]
    · refine .inr ⟨hu, ?_⟩
      rw [apply, generation?_publishDefinitions, if_neg hu]
  | replace u text symbols scopes limit =>
    by_cases hu : u = uri
    · refine .inl ⟨hu, .inr ⟨?_, rfl⟩⟩
      rw [apply, generation?_replaceFile, if_pos hu]
    · refine .inr ⟨hu, ?_⟩
      rw [apply, generation?_replaceFile, if_neg hu]
  | remove u =>
    by_cases hu : u = uri
    · refine .inl ⟨hu, .inl ?_⟩
      rw [apply, generation?_removeFile, if_pos hu]
    · refine .inr ⟨hu, ?_⟩
      rw [apply, generation?_removeFile, if_neg hu]
  | correct u g place column keep provisional =>
    refine .inr ⟨id, ?_⟩
    rw [apply, generation?, generation?,
      (generations_applyCorrection x u g place column keep provisional).1]

theorem lastGeneration_le_apply (x : SymbolIndex) (op : IndexOperation) :
    x.lastGeneration ≤ (op.apply x).lastGeneration := by
  rw [lastGeneration_apply]
  exact Nat.le_add_right _ _

theorem issued_apply {x : SymbolIndex} (h : Issued x) (op : IndexOperation) : Issued (op.apply x) := by
  intro uri generation hgen
  rcases generation?_apply x op uri with ⟨_, hnone | ⟨hnext, hlast⟩⟩ | ⟨_, hsame⟩
  · rw [hnone] at hgen
    cases hgen
  · rw [hnext] at hgen
    cases hgen
    exact Nat.le_of_eq hlast.symm
  · rw [hsame] at hgen
    exact Nat.le_trans (h uri generation hgen) (lastGeneration_le_apply x op)

/-- Once a number is given and not current for a file, it never is again. -/
theorem superseded_apply {x : SymbolIndex} {uri : String} {generation : Nat}
    (hgiven : generation ≤ x.lastGeneration) (op : IndexOperation)
    (h : op.Moves uri ∨ x.generation? uri ≠ some generation) :
    (op.apply x).generation? uri ≠ some generation := by
  rcases generation?_apply x op uri with ⟨_, hnone | ⟨hnext, _⟩⟩ | ⟨hstill, hsame⟩
  · rw [hnone]
    exact nofun
  · rw [hnext]
    intro heq
    have hnumber := Option.some.inj heq
    omega
  · rw [hsame]
    exact h.resolve_left hstill

theorem superseded_run {x : SymbolIndex} {uri : String} {generation : Nat}
    (hgiven : generation ≤ x.lastGeneration) (ops : List IndexOperation)
    (h : (∃ op ∈ ops, op.Moves uri) ∨ x.generation? uri ≠ some generation) :
    (run x ops).generation? uri ≠ some generation := by
  induction ops generalizing x with
  | nil => exact h.resolve_left (by simp)
  | cons op ops ih =>
    rw [run_cons]
    apply ih (Nat.le_trans hgiven (lastGeneration_le_apply x op))
    rcases h with ⟨move, hmem, hmoves⟩ | hne
    · rcases List.mem_cons.mp hmem with rfl | hmem
      · exact .inr (superseded_apply hgiven move (.inl hmoves))
      · exact .inl ⟨move, hmem, hmoves⟩
    · exact .inr (superseded_apply hgiven op (.inr hne))

/-- The numbers that a run gives are those after the last one, in order and without a gap. -/
theorem issued_eq_range (x : SymbolIndex) (ops : List IndexOperation) :
    (issued x ops).map (·.2) = List.range' (x.lastGeneration + 1) (issued x ops).length := by
  induction ops generalizing x with
  | nil => rfl
  | cons op ops ih =>
    have hlast := lastGeneration_apply x op
    rw [issued, List.map_append, List.length_append, ih]
    cases hop : op.issued? x with
    | none =>
      rw [hop] at hlast
      simp [hlast]
    | some given =>
      have hnumber : given.2 = x.lastGeneration + 1 := (issued?_eq_some hop).1
      rw [hop] at hlast
      simp [hlast, hnumber, Nat.add_comm 1, List.range'_succ]

/-- Publications are numbered from one on over the whole index, so their generations grow and stay
below any bound on their count. A correction that names a generation given to its file is stale,
and leaves the index as it is, once the file has been published or removed again. -/
theorem correction_stale_of_moved :
    (∀ ops : List IndexOperation,
      ((issued {} ops).map (·.2)).Pairwise (· < ·) ∧
        ∀ given ∈ issued {} ops, given.2 ≤ (issued {} ops).length) ∧
    ∀ (before : List IndexOperation) (publication : IndexOperation) (after : List IndexOperation)
      (uri : String) (generation : Nat),
      publication.issued? (run {} before) = some (uri, generation) →
      (∃ op ∈ after, op.Moves uri) →
      ∀ (place : Extent) (column keep : Name) (provisional : List Name),
        (run {} (before ++ publication :: after)).applyCorrection uri generation place column keep
          provisional = (.stale, run {} (before ++ publication :: after)) := by
  refine ⟨fun ops => ⟨?_, ?_⟩, ?_⟩
  · rw [issued_eq_range]
    exact List.pairwise_lt_range'
  · intro given hgiven
    have hmem : given.2 ∈ (issued {} ops).map (·.2) := List.mem_map_of_mem hgiven
    rw [issued_eq_range, List.mem_range'_1] at hmem
    have hzero : ({} : SymbolIndex).lastGeneration = 0 := rfl
    omega
  · intro before publication after uri generation hpublished hmoved place column keep provisional
    have hgiven := (issued?_eq_some hpublished).2
    have hgone : (run {} (before ++ publication :: after)).generation? uri ≠ some generation := by
      rw [run_append, run_cons]
      exact superseded_run (Nat.le_of_eq hgiven.symm) after (.inl hmoved)
    rcases applyCorrection_cases (run {} (before ++ publication :: after)) uri generation place
      column keep provisional with ⟨_, h⟩ | ⟨hcurrent, _⟩ | ⟨hcurrent, _⟩
    · exact h
    · exact absurd hcurrent hgone
    · exact absurd hcurrent hgone

/-- A file that was removed and came back with the same text has a new generation. -/
theorem correction_stale_after_return :
    let text := "SELECT a FROM t".toList
    let publication := replace "q.sql" text [] (.ofText text) 10
    let index := run {} [publication, remove "q.sql", publication]
    index.generation? "q.sql" = some 2 ∧
      index.applyCorrection "q.sql" 1 ⟨0, 7, 8⟩ (.ofText "a") (.ofText "t") [.ofText "t"] =
        (.stale, index) :=
  ⟨rfl, correction_stale_of_moved.2 [] _ [remove "q.sql", _] "q.sql" 1 rfl
    ⟨remove "q.sql", List.mem_cons_self, rfl⟩ _ _ _ _⟩

end IndexOperation

end SqlAtlas
