import Mathlib.Data.List.Basic
import SqlAtlas.Proofs.NameSet
import SqlAtlas.Scope.Clause

/-!
# What clauses make candidates

The reader of clauses goes through the tokens of a statement and passes over those that a clause has
used. A clause that it comes to binds the name behind its word, and a bound table is a candidate of
the statement, whatever is bound before and after it. The target of a change is one if its name is
an alias of nothing else.
-/

namespace SqlAtlas.Clause

set_option autoImplicit false

/-! ### Names -/

theorem objectName_of_reserved {toks : List Token} {keyword : String}
    (hkeyword : keyword ∈ Keyword.reservedWords) (h : frontIs keyword toks = true) :
    objectName toks = none := by
  cases toks with
  | nil => cases h
  | cons t rest =>
    cases t with
    | word value quote =>
      cases quote with
      | some q => simp [frontIs, Token.isKeyword, Token.bareWord?] at h
      | none =>
        have hupper : String.ofList (Text.asciiUpper value) = keyword := by
          have hvalue : Text.asciiUpper value = keyword.toList := by
            simpa [frontIs, Token.isKeyword, Token.bareWord?] using h
          rw [hvalue, String.ofList_toList]
        have hreserved : Keyword.isReserved value = true := by
          simpa [Keyword.isReserved, Keyword.oneOf, hupper] using hkeyword
        simp [objectName, hreserved]
    | _ => rfl

theorem frontIs_eq_false {toks : List Token} {keyword : String} {found : List Char × Nat}
    (hkeyword : keyword ∈ Keyword.reservedWords) (h : objectName toks = some found) :
    frontIs keyword toks = false := by
  rw [Bool.eq_false_iff]
  intro hfront
  rw [objectName_of_reserved hkeyword hfront] at h
  cases h

theorem rowLimit_eq_zero {toks : List Token} {found : List Char × Nat}
    (h : objectName toks = some found) : rowLimit toks = 0 := by
  rw [rowLimit, frontIs_eq_false (by decide) h]
  rfl

theorem head?_of_objectName {toks : List Token} {found : List Char × Nat}
    (h : objectName toks = some found) : toks.head? ≠ some .openParen := by
  rintro hparen
  obtain ⟨rest, rfl⟩ := List.head?_eq_some_iff.mp hparen
  cases h

theorem isKeyword_unique {t : Token} {keyword other : String} (h : t.isKeyword keyword = true)
    (h' : t.isKeyword other = true) : keyword = other := by
  obtain ⟨w, hw, hkeyword⟩ := (Option.any_eq_true _ _).mp h
  obtain ⟨w', hw', hother⟩ := (Option.any_eq_true _ _).mp h'
  rw [hw, Option.some.injEq] at hw'
  subst hw'
  rw [← String.ofList_toList (s := keyword), ← beq_iff_eq.mp hkeyword, beq_iff_eq.mp hother,
    String.ofList_toList]

theorem isKeyword_eq_false {t : Token} {keyword other : String} (h : t.isKeyword keyword = true)
    (hne : keyword ≠ other) : t.isKeyword other = false := by
  rw [Bool.eq_false_iff]
  exact fun h' => hne (isKeyword_unique h h')

/-! ### Clauses -/

def sourceWords : List String := ["FROM", "JOIN", "USING"]

def targetWords : List String := ["UPDATE", "DELETE"]

section

variable {ctes : List (List Char)} {t : Token} {rest : List Token} {raw : List Char} {n : Nat}
  (hname : objectName rest = some (raw, n))

include hname

theorem table_mem_tableFactor (hcall : (rest.drop n).head? ≠ some .openParen)
    (hcte : Text.lower raw ∉ ctes) : ∃ label, .table raw label ∈ (tableFactor ctes rest).1 := by
  rw [tableFactor, hname]
  simp only
  rw [if_neg (by simpa using hcall), if_neg (by simpa using hcte)]
  exact ⟨_, List.mem_singleton_self _⟩

theorem table_mem_tableFactors (hcall : (rest.drop n).head? ≠ some .openParen)
    (hcte : Text.lower raw ∉ ctes) : ∃ label, .table raw label ∈ (tableFactors ctes rest).1 := by
  obtain ⟨label, hlabel⟩ := table_mem_tableFactor hname hcall hcte
  refine ⟨label, ?_⟩
  rw [tableFactors]
  split
  · exact List.mem_append_left _ hlabel
  · exact hlabel

theorem table_mem_clauseAt {word : String} (hword : word ∈ sourceWords)
    (ht : t.isKeyword word = true) (hcall : (rest.drop n).head? ≠ some .openParen)
    (hcte : Text.lower raw ∉ ctes) : ∃ label, .table raw label ∈ (clauseAt ctes t rest).1 := by
  have hother : ∀ other, word ≠ other → t.isKeyword other = false := fun _ => isKeyword_eq_false ht
  rw [clauseAt]
  simp only [sourceWords, List.mem_cons, List.not_mem_nil, or_false] at hword
  rcases hword with rfl | rfl | rfl
  · rw [if_pos ht]
    exact table_mem_tableFactors hname hcall hcte
  · rw [hother "FROM" (by decide), ht]
    exact table_mem_tableFactor hname hcall hcte
  · rw [hother "FROM" (by decide), hother "JOIN" (by decide), hother "APPLY" (by decide),
      hother "UPDATE" (by decide), hother "INSERT" (by decide), hother "DELETE" (by decide),
      hother "MERGE" (by decide), ht]
    exact table_mem_tableFactor hname hcall hcte

theorem target_mem_clauseAt {word : String} (hword : word ∈ targetWords)
    (ht : t.isKeyword word = true) : .target raw ∈ (clauseAt ctes t rest).1 := by
  have hother : ∀ other, word ≠ other → t.isKeyword other = false := fun _ => isKeyword_eq_false ht
  have htarget : .target raw ∈ (target none .target rest).1 := by
    rw [target, rowLimit_eq_zero hname]
    simp [hname]
  rw [clauseAt]
  simp only [targetWords, List.mem_cons, List.not_mem_nil, or_false] at hword
  rcases hword with rfl | rfl
  · rw [hother "FROM" (by decide), hother "JOIN" (by decide), hother "APPLY" (by decide), ht,
      Bool.true_and, if_neg Bool.false_ne_true, if_neg (by decide),
      if_pos (by simpa using head?_of_objectName hname)]
    exact htarget
  · rw [hother "FROM" (by decide), hother "JOIN" (by decide), hother "APPLY" (by decide),
      hother "UPDATE" (by decide), hother "INSERT" (by decide), ht]
    have hfrom : frontIs "FROM" rest = false := frontIs_eq_false (by decide) hname
    simp only [rowLimit_eq_zero hname, List.drop_zero, hfrom]
    exact htarget

end

/-- The reader comes to the tokens `target` of a statement, none of which a clause before has used. -/
inductive Reaches (ctes : List (List Char)) (target : List Token) : List Token → Prop
  | here : Reaches ctes target target
  | clause {t : Token} {rest : List Token}
      (h : Reaches ctes target (rest.drop (clauseAt ctes t rest).2)) : Reaches ctes target (t :: rest)

/-- A token that opens no clause is passed over. -/
theorem Reaches.skip {ctes : List (List Char)} {target rest : List Token} {t : Token}
    (hskip : (clauseAt ctes t rest).2 = 0) (h : Reaches ctes target rest) :
    Reaches ctes target (t :: rest) :=
  .clause (by rwa [hskip])

theorem Reaches.bindings_subset {ctes : List (List Char)} {target toks : List Token}
    (h : Reaches ctes target toks) : bindings ctes target ⊆ bindings ctes toks := by
  induction h with
  | here => exact List.Subset.refl _
  | clause h ih =>
    rw [bindings]
    exact List.Subset.trans ih (List.subset_append_right _ _)

theorem clauseAt_subset_bindings (ctes : List (List Char)) (t : Token) (rest : List Token) :
    (clauseAt ctes t rest).1 ⊆ bindings ctes (t :: rest) := by
  rw [bindings]
  exact List.subset_append_left _ _

/-! ### Candidates -/

namespace Sources

theorem candidates_addTable (s : Sources) (raw : List Char) (label : Option (List Char)) :
    s.candidates ⊆ (s.addTable raw label).candidates := by
  unfold addTable
  simp only
  split
  · exact List.Subset.refl _
  · exact fun t ht => NameSet.mem_insert.mpr (.inr ht)

theorem mem_addTable (s : Sources) {raw : List Char} (label : Option (List Char))
    (hname : (Name.ofChars raw).isEmpty = false) :
    Name.ofChars raw ∈ (s.addTable raw label).candidates := by
  unfold addTable
  simp only
  rw [if_neg (by simp [hname])]
  exact NameSet.mem_insert.mpr (.inl rfl)

theorem candidates_bind (s : Sources) (b : Binding) : s.candidates ⊆ (s.bind b).candidates := by
  cases b with
  | table raw label => exact s.candidates_addTable raw label
  | subquery label => exact List.Subset.refl _
  | target raw => exact List.Subset.refl _

theorem candidates_bindTarget (s : Sources) (b : Binding) :
    s.candidates ⊆ (s.bindTarget b).candidates := by
  cases b with
  | table raw label => exact List.Subset.refl _
  | subquery label => exact List.Subset.refl _
  | target raw =>
    rw [bindTarget]
    split
    · exact fun t ht => NameSet.mem_insert.mpr (.inr ht)
    · exact List.Subset.refl _
    · exact s.candidates_addTable raw none

theorem candidates_foldl {step : Sources → Binding → Sources}
    (hstep : ∀ (s : Sources) b, s.candidates ⊆ (step s b).candidates) (s : Sources)
    (bs : List Binding) : s.candidates ⊆ (bs.foldl step s).candidates := by
  induction bs generalizing s with
  | nil => exact List.Subset.refl _
  | cons b bs ih => exact List.Subset.trans (hstep s b) (ih (step s b))

theorem mem_foldl {step : Sources → Binding → Sources}
    (hstep : ∀ (s : Sources) b, s.candidates ⊆ (step s b).candidates) {b : Binding} {t : Name}
    (hb : ∀ s : Sources, t ∈ (step s b).candidates) {bs : List Binding} (hmem : b ∈ bs)
    (s : Sources) : t ∈ (bs.foldl step s).candidates := by
  obtain ⟨before, after, rfl⟩ := List.append_of_mem hmem
  rw [List.foldl_append, List.foldl_cons]
  exact candidates_foldl hstep _ after (hb _)

/-! ### Aliases -/

theorem get?_bindMissing {m : AliasMap} {label : List Char} {target : AliasTarget}
    (h : m.get? label = some target) (key : List Char) (other : AliasTarget) :
    (m.bindMissing key other).get? label = some target := by
  rw [AliasMap.bindMissing]
  split
  · exact h
  · rw [AliasMap.get?, AliasMap.target?, List.lookup_append]
    exact Option.or_eq_some_iff.mpr (.inl h)

theorem get?_addTable {s : Sources} {label : List Char} {target : AliasTarget}
    (h : s.aliases.get? label = some target) (raw : List Char) (bound : Option (List Char)) :
    (s.addTable raw bound).aliases.get? label = some target := by
  unfold addTable
  simp only
  split
  · exact h
  · cases bound with
    | none => exact get?_bindMissing h _ _
    | some a => exact get?_bindMissing (get?_bindMissing h _ _) _ _

theorem get?_foldl_bindTarget {s : Sources} {label : List Char} {target : AliasTarget}
    (h : s.aliases.get? label = some target) (bs : List Binding) :
    (bs.foldl bindTarget s).aliases.get? label = some target := by
  induction bs generalizing s with
  | nil => exact h
  | cons b bs ih =>
    apply ih
    cases b with
    | table raw label => exact h
    | subquery label => exact h
    | target raw =>
      rw [bindTarget]
      split
      · exact h
      · exact h
      · exact get?_addTable h raw none

/-- The target of a change is a candidate unless its name is an alias of something else. -/
theorem target_mem_candidates {bs : List Binding} {raw : List Char} (hmem : .target raw ∈ bs)
    (hname : (Name.ofChars raw).isEmpty = false) (s : Sources)
    (halias : ∀ target, (bs.foldl bindTarget s).aliases.get? raw = some target →
      target = .table (Name.ofChars raw)) :
    Name.ofChars raw ∈ (bs.foldl bindTarget s).candidates := by
  obtain ⟨before, after, rfl⟩ := List.append_of_mem hmem
  rw [List.foldl_append, List.foldl_cons] at halias ⊢
  apply candidates_foldl candidates_bindTarget _ after
  generalize before.foldl bindTarget s = s at halias ⊢
  have hkept : ∀ target, s.aliases.get? raw = some target → target = .table (Name.ofChars raw) := by
    intro target htarget
    exact halias target (get?_foldl_bindTarget htarget (.target raw :: after))
  rw [bindTarget]
  cases hget : s.aliases.get? raw with
  | none => exact s.mem_addTable none hname
  | some target =>
    rw [hkept target hget]
    exact NameSet.mem_insert.mpr (.inl rfl)

end Sources

def subqueries (toks : List Token) : List (List Char) :=
  (if frontIs "WITH" toks then cteNames (toks.drop 1) else []).map Text.lower

/-- A clause that the reader comes to makes a candidate of the name behind its word, unless the name
is followed by arguments, is a named subquery, or is the target of a change and an alias of
something else. -/
theorem mem_candidates_of_reaches {toks : List Token} {t : Token} {rest : List Token}
    {raw : List Char} {n : Nat} {word : String}
    (hreach : Reaches (subqueries toks) (t :: rest) toks) (ht : t.isKeyword word = true)
    (hword : word ∈ sourceWords ∨ word ∈ targetWords) (hname : objectName rest = some (raw, n))
    (hcall : (rest.drop n).head? ≠ some .openParen) (hcte : Text.lower raw ∉ subqueries toks)
    (halias : word ∈ targetWords → ∀ target, (sources toks).aliases.get? raw = some target →
      target = .table (Name.ofChars raw))
    (hnamed : (Name.ofChars raw).isEmpty = false) : Name.ofChars raw ∈ (sources toks).candidates := by
  have hbound := List.Subset.trans (clauseAt_subset_bindings (subqueries toks) t rest)
    hreach.bindings_subset
  rcases hword with hword | hword
  · obtain ⟨label, hlabel⟩ := table_mem_clauseAt hname hword ht hcall hcte
    apply Sources.candidates_foldl Sources.candidates_bindTarget
    exact Sources.mem_foldl Sources.candidates_bind (fun s => s.mem_addTable label hnamed)
      (hbound hlabel) _
  · exact Sources.target_mem_candidates (hbound (target_mem_clauseAt hname hword ht)) hnamed _
      (halias hword)

end SqlAtlas.Clause
