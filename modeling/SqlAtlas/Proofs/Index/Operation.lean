import SqlAtlas.Index.Query
import SqlAtlas.Proofs.Index.References

/-!
# Operations on the index

The four operations that change an index, and what a correction does to what can be seen of it:
nothing but references go, and these only at one place of one file.
-/

namespace SqlAtlas

set_option autoImplicit false

open Text

inductive IndexOperation where
  | define (uri : String) (symbols : List SymbolDef)
  | replace (uri : String) (text : List Char) (symbols : List SymbolDef) (scopes : FileScopes)
      (limit : Nat)
  | remove (uri : String)
  | correct (uri : String) (generation : Nat) (place : Extent) (column keep : Name)
      (provisional : List Name)

namespace IndexOperation

def apply (x : SymbolIndex) : IndexOperation → SymbolIndex
  | define uri symbols => (x.publishDefinitions uri symbols).2
  | replace uri text symbols scopes limit => (x.replaceFile uri text symbols scopes limit).2
  | remove uri => x.removeFile uri
  | correct uri generation place column keep provisional =>
    (x.applyCorrection uri generation place column keep provisional).2

def run (x : SymbolIndex) (ops : List IndexOperation) : SymbolIndex := ops.foldl apply x

def issued? (x : SymbolIndex) : IndexOperation → Option (String × Nat)
  | define uri symbols => some (uri, (x.publishDefinitions uri symbols).1)
  | replace uri text symbols scopes limit =>
    some (uri, (x.replaceFile uri text symbols scopes limit).1.generation)
  | remove _ => none
  | correct .. => none

def issued (x : SymbolIndex) : List IndexOperation → List (String × Nat)
  | [] => []
  | op :: ops => (op.issued? x).toList ++ issued (op.apply x) ops

def Moves (uri : String) : IndexOperation → Prop
  | define u _ => u = uri
  | replace u .. => u = uri
  | remove u => u = uri
  | correct .. => False

@[simp] theorem run_nil (x : SymbolIndex) : run x [] = x := rfl

@[simp] theorem run_cons (x : SymbolIndex) (op : IndexOperation) (ops : List IndexOperation) :
    run x (op :: ops) = run (op.apply x) ops := rfl

theorem run_append (x : SymbolIndex) (ops more : List IndexOperation) :
    run x (ops ++ more) = run (run x ops) more := List.foldl_append

theorem run_induction {P : SymbolIndex → Prop} (hstep : ∀ x (op : IndexOperation), P x → P (op.apply x))
    (x : SymbolIndex) (ops : List IndexOperation) (h : P x) : P (run x ops) := by
  induction ops generalizing x with
  | nil => exact h
  | cons op ops ih => exact ih (op.apply x) (hstep x op h)

end IndexOperation

namespace SymbolIndex

/-! ### Retraction -/

theorem retract_references (x : SymbolIndex) (uri : String) (place : Extent) (name : Name) :
    (retract uri place name x).2 = { x with references := (retract uri place name x).2.references } := by
  rw [retract]
  split <;> rfl

theorem referencesTo_retract (x : SymbolIndex) (uri uri' : String) (place : Extent)
    (name name' : Name) : (retract uri place name x).2.referencesTo uri' name' =
      if name = name' ∧ uri = uri' then
        (x.referencesTo uri' name').filter fun r => decide (r.place ≠ place)
      else x.referencesTo uri' name' := by
  rw [retract]
  split
  · rename_i hnone
    split
    · rename_i heq
      obtain ⟨rfl, rfl⟩ := heq
      refine (List.filter_eq_self.mpr ?_).symm
      intro r hr
      simp only [List.isEmpty_iff, List.filter_eq_nil_iff, decide_eq_true_eq] at hnone
      simpa using hnone r hr
    · rfl
  · rw [referencesTo_eq, referencesAt_alterReferences, referencesTo_eq]
    split
    · rename_i heq
      rw [heq.1, heq.2]
    · rfl

theorem compact_retract {x : SymbolIndex} (h : Compact x.references) (uri : String)
    (place : Extent) (name : Name) : Compact (retract uri place name x).2.references := by
  rw [retract]
  split
  · exact h
  · exact h.alterReferences name uri _

def retractAll (uri : String) (place : Extent) (names : List Name) (x : SymbolIndex) : SymbolIndex :=
  names.foldl (fun y name => (retract uri place name y).2) x

def retractedNames (column keep : Name) (provisional : List Name) : List Name :=
  (provisional.filter (· ≠ keep)).map fun table => Name.qualified table column

theorem retractAll_references (uri : String) (place : Extent) (names : List Name)
    (x : SymbolIndex) : retractAll uri place names x =
      { x with references := (retractAll uri place names x).references } := by
  induction names generalizing x with
  | nil => rfl
  | cons name names ih =>
    change retractAll uri place names (retract uri place name x).2 =
      { x with references := (retractAll uri place names (retract uri place name x).2).references }
    rw [ih, retract_references]

theorem generation?_retractAll (uri uri' : String) (place : Extent) (names : List Name)
    (x : SymbolIndex) : (retractAll uri place names x).generation? uri' = x.generation? uri' := by
  rw [retractAll_references]
  rfl

theorem referencesTo_retractAll (uri uri' : String) (place : Extent) (names : List Name)
    (name : Name) (x : SymbolIndex) : (retractAll uri place names x).referencesTo uri' name =
      if uri = uri' ∧ name ∈ names then
        (x.referencesTo uri' name).filter fun r => decide (r.place ≠ place)
      else x.referencesTo uri' name := by
  induction names generalizing x with
  | nil => simp [retractAll]
  | cons n names ih =>
    change (retractAll uri place names (retract uri place n x).2).referencesTo uri' name = _
    rw [ih, referencesTo_retract]
    by_cases huri : uri = uri'
    · by_cases hn : n = name
      · simp [huri, hn]
      · simp [huri, hn, Ne.symm hn]
    · simp [huri]

theorem compact_retractAll {x : SymbolIndex} (h : Compact x.references) (uri : String)
    (place : Extent) (names : List Name) : Compact (retractAll uri place names x).references := by
  induction names generalizing x with
  | nil => exact h
  | cons name names ih => exact ih (compact_retract h uri place name)

theorem foldl_retract_snd (uri : String) (place : Extent) (column : Name) (tables : List Name)
    (n : Nat) (x : SymbolIndex) :
    (tables.foldl (fun (p : Nat × SymbolIndex) table =>
      (p.1 + (retract uri place (Name.qualified table column) p.2).1,
        (retract uri place (Name.qualified table column) p.2).2)) (n, x)).2 =
      retractAll uri place (tables.map fun table => Name.qualified table column) x := by
  induction tables generalizing n x with
  | nil => rfl
  | cons table tables ih => exact ih _ _

/-- The three ways a correction can end, and what it leaves behind. -/
theorem applyCorrection_cases (x : SymbolIndex) (uri : String) (generation : Nat) (place : Extent)
    (column keep : Name) (provisional : List Name) :
    (x.generation? uri ≠ some generation ∧
      x.applyCorrection uri generation place column keep provisional = (.stale, x)) ∨
    (x.generation? uri = some generation ∧ keep ∉ provisional ∧
      x.applyCorrection uri generation place column keep provisional = (.unmatched, x)) ∨
    (x.generation? uri = some generation ∧ keep ∈ provisional ∧
      ∃ n, x.applyCorrection uri generation place column keep provisional =
        (.applied n, retractAll uri place (retractedNames column keep provisional) x)) := by
  rw [applyCorrection, generation?]
  by_cases hgen : x.generations.get? uri = some generation
  · rw [if_neg (not_not_intro hgen)]
    right
    by_cases hkeep : keep ∈ provisional
    · rw [if_neg (by simpa using hkeep)]
      exact .inr ⟨hgen, hkeep, _, Prod.ext rfl (foldl_retract_snd uri place column _ 0 x)⟩
    · rw [if_pos (by simpa using hkeep)]
      exact .inl ⟨hgen, hkeep, rfl⟩
  · rw [if_pos hgen]
    exact .inl ⟨hgen, rfl⟩

/-- A correction changes nothing but references. -/
theorem applyCorrection_references (x : SymbolIndex) (uri : String) (generation : Nat)
    (place : Extent) (column keep : Name) (provisional : List Name) :
    (x.applyCorrection uri generation place column keep provisional).2 =
      { x with references :=
          (x.applyCorrection uri generation place column keep provisional).2.references } := by
  rcases applyCorrection_cases x uri generation place column keep provisional with
    ⟨_, h⟩ | ⟨_, _, h⟩ | ⟨_, _, n, h⟩
  · rw [h]
  · rw [h]
  · rw [h]
    exact retractAll_references uri place _ x

end SymbolIndex

end SqlAtlas
