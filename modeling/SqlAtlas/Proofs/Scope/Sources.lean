import SqlAtlas.Proofs.Alias
import SqlAtlas.Proofs.Checked.Clause
import SqlAtlas.Proofs.Scope.Clause

/-!
# Aliases and candidates fit together

The aliases and the candidate tables of a statement are filled together. Whatever its clauses bind,
and in whatever order, the tables that aliases stand for are candidates, every candidate can be
referred to by its own name, and the name of a named subquery stands for no table.
-/

namespace SqlAtlas.Clause

set_option autoImplicit false

def declared (toks : List Token) : List (List Char) :=
  if frontIs "WITH" toks then cteNames (toks.drop 1) else []

namespace Sources

/-- The sources of a statement before any of its clauses: the names stand for subqueries. -/
def naming (names : List (List Char)) : Sources := { aliases := names.foldl AliasMap.bindSubquery {} }

/-! ### Aliases of candidates -/

/-- Aliases stand for candidates, and candidates go by their own names. -/
structure Fits (s : Sources) : Prop where
  tidy : s.aliases.Tidy
  bound : ∀ key t, s.aliases.target? key = some (.table t) → t ∈ s.candidates
  named : ∀ t ∈ s.candidates, t.isEmpty = false ∧ s.aliases.contains t.unqualified = true

theorem contains_bindTable {m : AliasMap} {label : List Char} (h : m.contains label = true)
    (other : List Char) (table : Name) : (m.bindTable other table).contains label = true := by
  obtain ⟨target, htarget⟩ := Option.isSome_iff_exists.mp h
  exact Option.isSome_iff_exists.mpr ⟨target, get?_bindMissing htarget _ _⟩

theorem contains_own_name (m : AliasMap) (label : List Char) (table : Name) :
    (m.bindTable label table).contains label = true := by
  rw [AliasMap.contains, AliasMap.get?, AliasMap.bindTable, AliasMap.target?_bindMissing, if_pos rfl,
    Option.isSome_or, Option.isSome_some, Bool.or_true]

theorem table_of_bindTable {m : AliasMap} {label key : List Char} {table t : Name}
    (h : (m.bindTable label table).target? key = some (.table t)) :
    m.target? key = some (.table t) ∨ t = table := by
  rw [AliasMap.bindTable, AliasMap.target?_bindMissing, Option.or_eq_some_iff] at h
  rcases h with h | ⟨_, h⟩
  · exact .inl h
  · split at h
    · cases h
      exact .inr rfl
    · cases h

/-- A new candidate that is bound to its own name, behind any other alias of it. -/
theorem Fits.insert {s : Sources} (h : s.Fits) {table : Name} (hempty : table.isEmpty = false)
    {m : AliasMap} (htidy : m.Tidy)
    (hbound : ∀ {key t}, m.target? key = some (.table t) →
      s.aliases.target? key = some (.table t) ∨ t = table)
    (hkept : ∀ {label}, s.aliases.contains label = true → m.contains label = true) :
    Fits ⟨m.bindTable table.unqualified table, NameSet.insert table s.candidates⟩ := by
  refine ⟨htidy.bindTable _ table, fun key t ht => ?_, fun t ht => ?_⟩
  · rw [NameSet.mem_insert]
    rcases table_of_bindTable ht with ht | rfl
    · exact (hbound ht).elim (fun ht => .inr (h.bound key t ht)) .inl
    · exact .inl rfl
  · rcases NameSet.mem_insert.mp ht with rfl | ht
    · exact ⟨hempty, contains_own_name _ _ _⟩
    · obtain ⟨hnamed, hown⟩ := h.named t ht
      exact ⟨hnamed, contains_bindTable (hkept hown) _ table⟩

theorem Fits.addTable {s : Sources} (h : s.Fits) (raw : List Char) (label : Option (List Char)) :
    (s.addTable raw label).Fits := by
  unfold Sources.addTable
  simp only
  split
  · exact h
  · rename_i hempty
    rw [Bool.not_eq_true] at hempty
    cases label with
    | none => exact h.insert hempty h.tidy .inl id
    | some label =>
      exact h.insert hempty (h.tidy.bindTable label _) table_of_bindTable
        fun hbound => contains_bindTable hbound label _

theorem Fits.bindSubquery {s : Sources} (h : s.Fits) (label : List Char) :
    Fits { s with aliases := s.aliases.bindSubquery label } := by
  refine ⟨h.tidy.bindSubquery label, fun key t ht => ?_, fun t ht => ?_⟩
  · rw [AliasMap.target?_bindSubquery] at ht
    split at ht
    · cases ht
    · exact h.bound key t ht
  · obtain ⟨hempty, hown⟩ := h.named t ht
    refine ⟨hempty, ?_⟩
    rw [AliasMap.contains, AliasMap.get?_bindSubquery]
    split
    · rfl
    · exact hown

theorem Fits.bind {s : Sources} (h : s.Fits) (b : Binding) : (s.bind b).Fits := by
  cases b with
  | table raw label => exact h.addTable raw label
  | subquery label => exact h.bindSubquery label
  | target raw => exact h

/-- The target of a change that is an alias is a candidate already. -/
theorem Fits.bindTarget {s : Sources} (h : s.Fits) (b : Binding) : (s.bindTarget b).Fits := by
  cases b with
  | table raw label => exact h
  | subquery label => exact h
  | target raw =>
    rw [Sources.bindTarget]
    split
    · rename_i t ht
      have hcandidate := h.bound _ t ht
      refine ⟨h.tidy, fun key u hu => NameSet.mem_insert.mpr (.inr (h.bound key u hu)), fun u hu => ?_⟩
      rcases NameSet.mem_insert.mp hu with rfl | hu
      · exact h.named u hcandidate
      · exact h.named u hu
    · exact h
    · exact h.addTable raw none

theorem fits_naming (names : List (List Char)) : (naming names).Fits := by
  refine List.foldlRecOn (motive := fun m => Fits { aliases := m }) _ _ ?_ ?_
  · exact ⟨AliasMap.tidy_empty, nofun, nofun⟩
  · exact fun _ hm name _ => hm.bindSubquery name

/-! ### Named subqueries -/

/-- The names stand for subqueries. -/
def Hides (names : List (List Char)) (s : Sources) : Prop :=
  ∀ name ∈ names, s.aliases.get? name = some .subquery

variable {names : List (List Char)} {s : Sources}

theorem hides_naming (names : List (List Char)) : (naming names).Hides names := by
  intro name hname
  obtain ⟨before, after, rfl⟩ := List.append_of_mem hname
  simp only [naming, List.foldl_append, List.foldl_cons]
  apply AliasMap.get?_foldl_bindSubquery
  rw [AliasMap.get?_bindSubquery, if_pos rfl]

theorem Hides.bind (h : s.Hides names) (b : Binding) : (s.bind b).Hides names := by
  intro name hname
  cases b with
  | table raw label => exact get?_addTable (h name hname) raw label
  | subquery label => exact AliasMap.get?_foldl_bindSubquery (h name hname) [label]
  | target raw => exact h name hname

theorem Hides.bindTarget (h : s.Hides names) (b : Binding) : (s.bindTarget b).Hides names := by
  intro name hname
  exact get?_foldl_bindTarget (h name hname) [b]

end Sources

open Sources

/-- What holds of the named subqueries alone and is kept by every binding holds of the sources. -/
theorem sources_induction {motive : Sources → Prop} {toks : List Token}
    (start : motive (naming (declared toks)))
    (bind : ∀ s, ∀ b ∈ bindings (subqueries toks) toks, motive s → motive (s.bind b))
    (target : ∀ s, ∀ b ∈ bindings (subqueries toks) toks, motive s → motive (s.bindTarget b)) :
    motive (sources toks) := by
  have hbound := List.foldlRecOn _ _ start fun s hs b hb => bind s b hb hs
  exact List.foldlRecOn _ _ hbound fun s hs b hb => target s b hb hs

theorem fits_sources (toks : List Token) : (sources toks).Fits :=
  sources_induction (fits_naming _) (fun _ b _ hs => hs.bind b) fun _ b _ hs => hs.bindTarget b

theorem hides_sources (toks : List Token) : (sources toks).Hides (declared toks) :=
  sources_induction (hides_naming _) (fun _ b _ hs => hs.bind b) fun _ b _ hs => hs.bindTarget b

/-- The sources of a statement are found in whatever tokens it has. Aliases stand for candidates, each
under one key in lower case; candidates have a name and are bound to the last part of it; and the
names of subqueries in front of a statement stand for subqueries. -/
theorem aliases_fit_candidates (toks : List Token) :
    Checked.sources toks = pure (sources toks) ∧
      (∀ key t, (sources toks).aliases.target? key = some (.table t) → t ∈ (sources toks).candidates) ∧
      (∀ t ∈ (sources toks).candidates,
        t.isEmpty = false ∧ (sources toks).aliases.contains t.unqualified = true) ∧
      (∀ e ∈ (sources toks).aliases.entries, Text.lower e.1 = e.1) ∧
      ((sources toks).aliases.entries.map (·.1)).Nodup ∧
      ∀ name ∈ declared toks, (sources toks).aliases.get? name = some .subquery := by
  obtain ⟨htidy, hbound, hnamed⟩ := fits_sources toks
  exact ⟨Checked.sources_eq toks, hbound, hnamed, htidy.lower, htidy.distinct, hides_sources toks⟩

end SqlAtlas.Clause
