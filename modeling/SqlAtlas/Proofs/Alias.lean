import Mathlib.Data.List.Nodup
import SqlAtlas.Alias
import SqlAtlas.Proofs.Text.Lower

/-!
# The bindings of an alias map

An alias map is a function on lower case keys. Binding an alias changes what one key stands for: a
table takes a free key only, a subquery takes any.
-/

namespace SqlAtlas.AliasMap

set_option autoImplicit false

theorem lookup_filter_ne (key other : List Char) (entries : List (List Char × AliasTarget)) :
    (entries.filter fun e => e.1 != key).lookup other =
      if other = key then none else entries.lookup other := by
  induction entries with
  | nil => simp
  | cons e entries ih =>
    obtain ⟨label, t⟩ := e
    by_cases hlabel : label = key
    · rw [List.filter_cons_of_neg (by simp [hlabel]), ih, hlabel]
      split
      · rfl
      · rename_i hother
        rw [List.lookup_cons, beq_false_of_ne hother]
    · rw [List.filter_cons_of_pos (by simp [hlabel]), List.lookup_cons, List.lookup_cons, ih]
      by_cases hother : other = label
      · rw [hother, beq_self_eq_true, if_neg hlabel, if_neg hlabel]
      · rw [beq_false_of_ne hother]

theorem target?_bindMissing (m : AliasMap) (key : List Char) (t : AliasTarget) (other : List Char) :
    (m.bindMissing key t).target? other =
      (m.target? other).or (if other = key then some t else none) := by
  rw [bindMissing]
  split
  · rename_i hbound
    split
    · rename_i hother
      rw [hother, Option.or_of_isSome hbound]
    · rw [Option.or_none]
  · rw [target?, List.lookup_append, List.lookup_cons, List.lookup_nil]
    by_cases hother : other = key
    · rw [if_pos hother, hother, beq_self_eq_true]
      rfl
    · rw [if_neg hother, beq_false_of_ne hother]
      rfl

theorem target?_bindSubquery (m : AliasMap) (label other : List Char) :
    (m.bindSubquery label).target? other =
      if other = Text.lower label then some .subquery else m.target? other := by
  rw [bindSubquery, target?, List.lookup_append, List.lookup_cons, List.lookup_nil,
    lookup_filter_ne]
  by_cases hother : other = Text.lower label
  · rw [if_pos hother, if_pos hother, hother, beq_self_eq_true]
    rfl
  · rw [if_neg hother, if_neg hother, beq_false_of_ne hother, Option.or_none]
    rfl

theorem get?_bindSubquery (m : AliasMap) (label other : List Char) :
    (m.bindSubquery label).get? other =
      if Text.lower other = Text.lower label then some .subquery else m.get? other :=
  m.target?_bindSubquery label (Text.lower other)

/-- An alias stays bound, and stays a subquery, whatever is bound after it. -/
theorem get?_foldl_bindSubquery {m : AliasMap} {label : List Char} (h : m.get? label = some .subquery)
    (labels : List (List Char)) : (labels.foldl bindSubquery m).get? label = some .subquery := by
  refine List.foldlRecOn (motive := fun m : AliasMap => m.get? label = some .subquery) _ _ h ?_
  intro m hm other _
  rw [get?_bindSubquery, hm, ite_self]

/-! ### Keys -/

/-- Every key is in lower case and stands for one thing. -/
structure Tidy (m : AliasMap) : Prop where
  lower : ∀ e ∈ m.entries, Text.lower e.1 = e.1
  distinct : (m.entries.map (·.1)).Nodup

theorem tidy_empty : Tidy {} := ⟨nofun, List.nodup_nil⟩

theorem Tidy.append {m : AliasMap} (h : m.Tidy) {key : List Char} (hlower : Text.lower key = key)
    (hfree : ∀ e ∈ m.entries, e.1 ≠ key) (t : AliasTarget) : Tidy ⟨m.entries ++ [(key, t)]⟩ := by
  constructor
  · intro e he
    rcases List.mem_append.mp he with he | he
    · exact h.lower e he
    · rwa [List.mem_singleton.mp he]
  · rw [List.map_append, List.nodup_append]
    refine ⟨h.distinct, List.nodup_singleton _, ?_⟩
    rintro _ hmem _ (_ | ⟨_, ⟨⟩⟩)
    obtain ⟨e, he, rfl⟩ := List.mem_map.mp hmem
    exact hfree e he

theorem Tidy.bindTable {m : AliasMap} (h : m.Tidy) (label : List Char) (table : Name) :
    (m.bindTable label table).Tidy := by
  rw [AliasMap.bindTable, bindMissing]
  split
  · exact h
  · rename_i hfree
    rw [Bool.not_eq_true, Option.isSome_eq_false_iff, Option.isNone_iff_eq_none, target?,
      List.lookup_eq_none_iff] at hfree
    refine h.append (Text.lower_lower label) (fun e he heq => ?_) _
    simpa [heq] using hfree e he

theorem Tidy.bindSubquery {m : AliasMap} (h : m.Tidy) (label : List Char) :
    (m.bindSubquery label).Tidy := by
  have hleft : Tidy ⟨m.entries.filter fun e => e.1 != Text.lower label⟩ :=
    ⟨fun e he => h.lower e (List.mem_of_mem_filter he),
      h.distinct.sublist (List.filter_sublist.map _)⟩
  refine hleft.append (Text.lower_lower label) (fun e he => ?_) _
  simpa using (List.mem_filter.mp he).2

end SqlAtlas.AliasMap
