import SqlAtlas.Proofs.Scope.Sources

/-!
# Named subqueries are no candidates

The name of a subquery that stands in front of a statement names no table in it. A row source of that
name is passed over, and the target of a change finds the name bound. The targets of insertions and
merges are not compared with the names.
-/

namespace SqlAtlas.Clause

set_option autoImplicit false

variable {ctes : List (List Char)} {toks : List Token}

/-- Every binding of a statement is made by a clause that the reader comes to. -/
theorem exists_reaches_of_mem_bindings {b : Binding} (h : b ∈ bindings ctes toks) :
    ∃ t rest, Reaches ctes (t :: rest) toks ∧ b ∈ (clauseAt ctes t rest).1 := by
  fun_induction bindings ctes toks with
  | case1 => cases h
  | case2 t rest r ih =>
    rcases List.mem_append.mp h with h | h
    · exact ⟨t, rest, .here, h⟩
    · obtain ⟨u, more, hreach, hb⟩ := ih h
      exact ⟨u, more, .clause hreach, hb⟩

/-! ### Row sources -/

theorem mem_subqueryBinding {b : Binding} (h : b ∈ (subqueryBinding toks).1) :
    ∃ label, b = .subquery label := by
  obtain ⟨label, _, rfl⟩ := List.mem_map.mp h
  exact ⟨label, rfl⟩

/-- A row source is a subquery, or a table whose name is not that of one. -/
theorem mem_tableFactor {b : Binding} (h : b ∈ (tableFactor ctes toks).1) :
    (∃ label, b = .subquery label) ∨ ∃ raw label, b = .table raw label ∧ Text.lower raw ∉ ctes := by
  rw [tableFactor] at h
  split at h
  · cases h
  · rename_i raw n _
    simp only at h
    split at h
    · exact .inl (mem_subqueryBinding h)
    · split at h
      · exact .inl (mem_subqueryBinding h)
      · rename_i hcte
        exact .inr ⟨raw, _, List.mem_singleton.mp h, by simpa using hcte⟩

theorem mem_tableFactors {b : Binding} (h : b ∈ (tableFactors ctes toks).1) :
    (∃ label, b = .subquery label) ∨ ∃ raw label, b = .table raw label ∧ Text.lower raw ∉ ctes := by
  fun_induction tableFactors ctes toks with
  | case1 toks r rest hcomma more ih =>
    rcases List.mem_append.mp h with h | h
    · exact mem_tableFactor h
    · exact ih h
  | case2 toks r hlast => exact mem_tableFactor h

theorem mem_target {bind : List Char → Binding} {word : Option String} {b : Binding}
    (h : b ∈ (target word bind toks).1) : ∃ raw, b = bind raw := by
  rw [target] at h
  split at h
  · exact ⟨_, List.mem_singleton.mp h⟩
  · cases h

/-- A clause binds subqueries, tables that are no named subquery, and targets of changes; an insertion
or a merge binds any table. -/
theorem mem_clauseAt {t : Token} {rest : List Token} {b : Binding} (h : b ∈ (clauseAt ctes t rest).1) :
    ((∃ label, b = .subquery label) ∨ ∃ raw label, b = .table raw label ∧ Text.lower raw ∉ ctes) ∨
      (∃ raw, b = .target raw) ∨ t.isKeyword "INSERT" = true ∨ t.isKeyword "MERGE" = true := by
  rw [clauseAt] at h
  split_ifs at h with hfrom hjoin hupdate hinsert hdelete hmerge husing hparen
  · exact .inl (mem_tableFactors h)
  · exact .inl (mem_tableFactor h)
  · exact .inr (.inl (mem_target h))
  · exact .inr (.inr (.inl hinsert))
  · simp only at h
    split_ifs at h
    · cases h
    · exact .inr (.inl (mem_target h))
  · exact .inr (.inr (.inr hmerge))
  · exact .inl (mem_tableFactor h)
  · exact .inl (.inl (mem_subqueryBinding h))
  · cases h
  · cases h

/-- A table of that name is bound by an insertion or a merge only. -/
theorem keyword_of_hidden {t : Token} {rest : List Token} {raw : List Char} {label : Option (List Char)}
    (h : .table raw label ∈ (clauseAt ctes t rest).1) (hhidden : Text.lower raw ∈ ctes) :
    t.isKeyword "INSERT" = true ∨ t.isKeyword "MERGE" = true := by
  rcases mem_clauseAt h with (⟨_, ⟨⟩⟩ | ⟨_, _, ⟨⟩, hshown⟩) | ⟨_, ⟨⟩⟩ | hword
  · exact (hshown hhidden).elim
  · exact hword

/-! ### Targets of changes -/

namespace Binding

def isTargetAmong (names : List (List Char)) : Binding → Bool
  | .target raw => names.contains (Text.lower raw)
  | _ => false

end Binding

namespace Sources

variable {names : List (List Char)} {s : Sources} {b : Binding}

theorem Hides.get? (h : s.Hides names) {raw : List Char} (hraw : Text.lower raw ∈ names.map Text.lower) :
    s.aliases.get? raw = some .subquery := by
  obtain ⟨name, hname, hlower⟩ := List.mem_map.mp hraw
  rw [AliasMap.get?, ← hlower]
  exact h name hname

theorem bind_of_isTargetAmong (hb : b.isTargetAmong names = true) : s.bind b = s := by
  cases b with
  | table raw label => cases hb
  | subquery label => cases hb
  | target raw => rfl

theorem Hides.bindTarget_of_isTargetAmong (h : s.Hides names)
    (hb : b.isTargetAmong (names.map Text.lower) = true) : s.bindTarget b = s := by
  cases b with
  | table raw label => rfl
  | subquery label => rfl
  | target raw =>
    rw [Sources.bindTarget, h.get? (List.contains_iff_mem.mp hb)]

theorem foldl_bind_filter (bs : List Binding) (s : Sources) :
    (bs.filter (!·.isTargetAmong names)).foldl Sources.bind s = bs.foldl Sources.bind s := by
  induction bs generalizing s with
  | nil => rfl
  | cons b bs ih =>
    cases hb : b.isTargetAmong names with
    | true =>
      rw [List.filter_cons_of_neg (by simp [hb]), ih, List.foldl_cons, bind_of_isTargetAmong hb]
    | false => rw [List.filter_cons_of_pos (by simp [hb]), List.foldl_cons, ih, List.foldl_cons]

theorem Hides.foldl_bindTarget_filter (h : s.Hides names) (bs : List Binding) :
    (bs.filter (!·.isTargetAmong (names.map Text.lower))).foldl Sources.bindTarget s =
      bs.foldl Sources.bindTarget s := by
  induction bs generalizing s with
  | nil => rfl
  | cons b bs ih =>
    cases hb : b.isTargetAmong (names.map Text.lower) with
    | true =>
      rw [List.filter_cons_of_neg (by simp [hb]), ih h, List.foldl_cons,
        h.bindTarget_of_isTargetAmong hb]
    | false =>
      rw [List.filter_cons_of_pos (by simp [hb]), List.foldl_cons, ih (h.bindTarget b),
        List.foldl_cons]

end Sources

/-! ### Candidates -/

/-- The tokens of a statement have a clause whose word is `t` and that names `raw` as a table or as the
target of a change. -/
def Mentions (toks : List Token) (t : Token) (raw : List Char) : Prop :=
  ∃ rest, Reaches (subqueries toks) (t :: rest) toks ∧
    ((∃ label, .table raw label ∈ (clauseAt (subqueries toks) t rest).1) ∨
      .target raw ∈ (clauseAt (subqueries toks) t rest).1)

/-- The clause that makes a name a candidate. The name is that of a subquery in an insertion or a merge
only. -/
def Explained (toks : List Token) (c : Name) : Prop :=
  ∃ t raw, Mentions toks t raw ∧ c = Name.ofChars raw ∧
    (Text.lower raw ∈ subqueries toks → t.isKeyword "INSERT" = true ∨ t.isKeyword "MERGE" = true)

theorem mem_candidates_addTable {s : Sources} {raw : List Char} {label : Option (List Char)} {c : Name}
    (h : c ∈ (s.addTable raw label).candidates) : c = Name.ofChars raw ∨ c ∈ s.candidates := by
  unfold Sources.addTable at h
  simp only at h
  split at h
  · exact .inr h
  · exact NameSet.mem_insert.mp h

theorem explained_of_table {raw : List Char} {label : Option (List Char)}
    (h : .table raw label ∈ bindings (subqueries toks) toks) : Explained toks (Name.ofChars raw) := by
  obtain ⟨t, rest, hreach, hmem⟩ := exists_reaches_of_mem_bindings h
  exact ⟨t, raw, ⟨rest, hreach, .inl ⟨label, hmem⟩⟩, rfl, keyword_of_hidden hmem⟩

theorem explained_of_target {raw : List Char} (h : .target raw ∈ bindings (subqueries toks) toks)
    (hshown : Text.lower raw ∉ subqueries toks) : Explained toks (Name.ofChars raw) := by
  obtain ⟨t, rest, hreach, hmem⟩ := exists_reaches_of_mem_bindings h
  exact ⟨t, raw, ⟨rest, hreach, .inr hmem⟩, rfl, fun hhidden => (hshown hhidden).elim⟩

theorem explained_of_mem_candidates {c : Name} (h : c ∈ (sources toks).candidates) :
    Explained toks c := by
  -- A target that is an alias stands for a candidate, and one that is not is no named subquery.
  suffices hall : (sources toks).Hides (declared toks) ∧ (sources toks).Fits ∧
      ∀ c ∈ (sources toks).candidates, Explained toks c from hall.2.2 c h
  refine sources_induction (motive := fun s => s.Hides (declared toks) ∧ s.Fits ∧
    ∀ c ∈ s.candidates, Explained toks c)
    ⟨Sources.hides_naming _, Sources.fits_naming _, nofun⟩ ?_ ?_
  · rintro s b hb ⟨hhides, hfits, hall⟩
    refine ⟨hhides.bind b, hfits.bind b, fun c hc => ?_⟩
    cases b with
    | table raw label =>
      rcases mem_candidates_addTable hc with rfl | hc
      · exact explained_of_table hb
      · exact hall c hc
    | subquery label => exact hall c hc
    | target raw => exact hall c hc
  · rintro s b hb ⟨hhides, hfits, hall⟩
    refine ⟨hhides.bindTarget b, hfits.bindTarget b, fun c hc => ?_⟩
    cases b with
    | table raw label => exact hall c hc
    | subquery label => exact hall c hc
    | target raw =>
      rw [Sources.bindTarget] at hc
      split at hc
      · rename_i t ht
        rcases NameSet.mem_insert.mp hc with rfl | hc
        · exact hall c (hfits.bound _ c ht)
        · exact hall c hc
      · exact hall c hc
      · rename_i hfree
        rcases mem_candidates_addTable hc with rfl | hc
        · refine explained_of_target hb fun hhidden => ?_
          rw [hhides.get? hhidden] at hfree
          cases hfree
        · exact hall c hc

/-- What the clauses of a statement bind, targets that are named subqueries left out. -/
def shown (toks : List Token) : List Binding :=
  (bindings (subqueries toks) toks).filter (!·.isTargetAmong (subqueries toks))

theorem sources_eq_shown (toks : List Token) :
    sources toks = (shown toks).foldl Sources.bindTarget
      ((shown toks).foldl Sources.bind (.naming (declared toks))) := by
  have hhides := List.foldlRecOn (motive := fun s : Sources => s.Hides (declared toks))
    (bindings (subqueries toks) toks) Sources.bind (Sources.hides_naming (declared toks))
    fun s hs b _ => hs.bind b
  rw [shown, Sources.foldl_bind_filter]
  exact (hhides.foldl_bindTarget_filter _).symm

/-- The name of a subquery in front of a statement adds nothing to its candidates, in whatever case it
is written. A clause of row sources that names it binds no table, a target that is named so may as
well not be there, and no candidate comes from such a name. Insertions and merges are left out: their
targets are not compared with the names. -/
theorem named_subquery_adds_nothing (toks : List Token) :
    (∀ t rest raw label, .table raw label ∈ (clauseAt (subqueries toks) t rest).1 →
      Text.lower raw ∈ subqueries toks → t.isKeyword "INSERT" = true ∨ t.isKeyword "MERGE" = true) ∧
      sources toks = (shown toks).foldl Sources.bindTarget
        ((shown toks).foldl Sources.bind (.naming (declared toks))) ∧
      ∀ c ∈ (sources toks).candidates, Explained toks c :=
  ⟨fun _ _ _ _ => keyword_of_hidden, sources_eq_shown toks, fun _ => explained_of_mem_candidates⟩

/-- The target of an insertion becomes a candidate although it is a named subquery. -/
theorem insertion_into_named_subquery :
    let text := "WITH c AS (SELECT Id FROM T) INSERT INTO c VALUES (1)".toList
    let toks := ((lexemes? .tsql 0 text).getD []).map (·.token)
    "c".toList ∈ subqueries toks ∧
      bindings (subqueries toks) toks = [.table "T".toList none, .table "c".toList none] ∧
      (sources toks).candidates = [.ofText "c", .ofText "t"] := by
  decide +kernel

end SqlAtlas.Clause
