import SqlAtlas.Dict
import SqlAtlas.Proofs.Arrangement

/-!
# Maps with distinct keys

Every operation on a map keeps its keys distinct. The keys of such a map and `get?` say everything
about it but the order of its entries.
-/

namespace SqlAtlas.Dict

set_option autoImplicit false

variable {κ α β : Type}

/-- The map with `f` applied to every value; keys that it gives no value are left out. -/
def filterMap (f : κ → α → Option α) (d : Dict κ α) : Dict κ α :=
  ⟨d.entries.filterMap fun e => (f e.1 e.2).map (e.1, ·)⟩

def Distinct (d : Dict κ α) : Prop := d.keys.Nodup

theorem distinct_empty : ({} : Dict κ α).Distinct := List.nodup_nil

theorem isEmpty_iff_keys (d : Dict κ α) : d.isEmpty = true ↔ d.keys = [] := by
  rw [isEmpty, List.isEmpty_iff, keys, List.map_eq_nil_iff]

variable [DecidableEq κ]

theorem mem_keys_iff (d : Dict κ α) (k : κ) : k ∈ d.keys ↔ (d.get? k).isSome = true := by
  rw [keys, get?]
  induction d.entries with
  | nil => simp [find?]
  | cons e es ih =>
    rw [List.map_cons, List.mem_cons, ih, find?]
    by_cases h : e.1 = k
    · simp [h]
    · simp [h, Ne.symm h]

theorem get?_eq_none_iff (d : Dict κ α) (k : κ) : d.get? k = none ↔ k ∉ d.keys := by
  rw [mem_keys_iff, Bool.not_eq_true, Option.isSome_eq_false_iff, Option.isNone_iff_eq_none]

theorem keys_put (k : κ) (v : α) (es : List (κ × α)) : (put k v es).map (·.1) =
    if k ∈ es.map (·.1) then es.map (·.1) else es.map (·.1) ++ [k] := by
  induction es with
  | nil => rfl
  | cons e es ih =>
    rw [put]
    by_cases h : e.1 = k
    · simp [h]
    · rw [if_neg h, List.map_cons, ih, List.map_cons]
      by_cases hk : k ∈ es.map (·.1)
      · rw [if_pos hk, if_pos (List.mem_cons_of_mem _ hk)]
      · rw [if_neg hk, if_neg (by simp [hk, Ne.symm h]), List.cons_append]

theorem keys_insert (d : Dict κ α) (k : κ) (v : α) :
    (d.insert k v).keys = if k ∈ d.keys then d.keys else d.keys ++ [k] := keys_put k v d.entries

theorem keys_erase (d : Dict κ α) (k : κ) :
    (d.erase k).keys = d.keys.filter fun k' => decide (k' ≠ k) := by
  simp only [erase, keys, List.filter_map]
  rfl

theorem mem_keys_insert {d : Dict κ α} {k k' : κ} {v : α} :
    k' ∈ (d.insert k v).keys ↔ k' = k ∨ k' ∈ d.keys := by
  rw [mem_keys_iff, mem_keys_iff, get?_insert]
  by_cases h : k = k'
  · simp [h]
  · simp [h, Ne.symm h]

theorem mem_keys_erase {d : Dict κ α} {k k' : κ} :
    k' ∈ (d.erase k).keys ↔ k' ≠ k ∧ k' ∈ d.keys := by
  rw [keys_erase, List.mem_filter, decide_eq_true_eq, and_comm]

theorem get?_insert_erase (d : Dict κ α) (k k' : κ) (v : α) :
    ((d.erase k).insert k v).get? k' = if k = k' then some v else d.get? k' := by
  rw [get?_insert, get?_erase]
  split <;> rfl

theorem Distinct.insert {d : Dict κ α} (h : d.Distinct) (k : κ) (v : α) : (d.insert k v).Distinct := by
  rw [Distinct, keys_insert]
  split
  · exact h
  · rename_i hk
    exact List.nodup_append.mpr ⟨h, List.nodup_singleton k, by
      intro a ha b hb
      rw [List.mem_singleton.mp hb]
      rintro rfl
      exact hk ha⟩

theorem Distinct.erase {d : Dict κ α} (h : d.Distinct) (k : κ) : (d.erase k).Distinct := by
  rw [Distinct, keys_erase]
  exact h.filter _

theorem Distinct.alter {d : Dict κ α} (h : d.Distinct) (k : κ) (f : Option α → Option α) :
    (d.alter k f).Distinct := by
  rw [Dict.alter]
  split
  · exact h.insert k _
  · exact h.erase k

/-- The values of a map, each read off its key. -/
theorem Distinct.values_eq {d : Dict κ α} (h : d.Distinct) : d.values = d.keys.filterMap d.get? := by
  obtain ⟨es⟩ := d
  change (es.map (·.1)).Nodup at h
  change es.map (·.2) = (es.map (·.1)).filterMap fun k => find? k es
  induction es with
  | nil => rfl
  | cons e es ih =>
    obtain ⟨hfresh, h⟩ := List.nodup_cons.mp h
    have htail : (es.map (·.1)).filterMap (fun k => find? k (e :: es)) =
        (es.map (·.1)).filterMap fun k => find? k es := by
      apply List.filterMap_congr
      intro k hk
      have hne : e.1 ≠ k := by
        rintro rfl
        exact hfresh hk
      rw [find?, if_neg hne]
    rw [List.map_cons, List.map_cons, List.filterMap_cons_some (by rw [find?, if_pos rfl]), htail,
      ih h]

theorem flatten_filterMap_get? (d : Dict κ (List β)) (ks : List κ) :
    (ks.filterMap d.get?).flatten = ks.flatMap fun k => (d.get? k).getD [] := by
  induction ks with
  | nil => rfl
  | cons k ks ih =>
    cases hk : d.get? k with
    | none => rw [List.filterMap_cons_none hk, ih, List.flatMap_cons, hk]; rfl
    | some v => rw [List.filterMap_cons_some hk, List.flatten_cons, ih, List.flatMap_cons, hk]; rfl

/-- The values of a map of lists, put together, are what its keys have, in any order of keys. -/
theorem Distinct.values_flatten_perm {d : Dict κ (List β)} (h : d.Distinct) {ks : List κ}
    (hks : ks.Nodup) (hcover : ∀ k ∈ d.keys, k ∈ ks) :
    d.values.flatten.Perm (ks.flatMap fun k => (d.get? k).getD []) := by
  rw [h.values_eq, flatten_filterMap_get?]
  apply Arrangement.flatMap_perm_of_support _ h hks
  intro k hk
  have hmem : k ∈ d.keys := by
    rw [mem_keys_iff]
    cases hv : d.get? k with
    | none => rw [hv] at hk; exact absurd rfl hk
    | some v => rfl
  exact ⟨hcover k, fun _ => hmem⟩

/-! ### Changing every value -/

omit [DecidableEq κ] in
theorem filterMap_filterMap (f g : κ → α → Option α) (d : Dict κ α) :
    (d.filterMap g).filterMap f = d.filterMap fun k v => (g k v).bind (f k) := by
  rw [filterMap, filterMap, filterMap, List.filterMap_filterMap]
  congr 1
  apply List.filterMap_congr
  intro e _
  cases g e.1 e.2 <;> rfl

omit [DecidableEq κ] in
theorem Distinct.filterMap {d : Dict κ α} (h : d.Distinct) (f : κ → α → Option α) :
    (d.filterMap f).Distinct := by
  refine List.Nodup.sublist ?_ h
  change ((d.entries.filterMap fun e => (f e.1 e.2).map (e.1, ·)).map (·.1)).Sublist
    (d.entries.map (·.1))
  induction d.entries with
  | nil => exact List.Sublist.refl _
  | cons e es ih =>
    cases he : f e.1 e.2 with
    | none =>
      rw [List.filterMap_cons_none (by rw [he]; rfl)]
      exact ih.cons _
    | some v =>
      rw [List.filterMap_cons_some (b := (e.1, v)) (by rw [he]; rfl)]
      exact ih.cons_cons _

omit [DecidableEq κ] in
theorem key_ne_of_notMem {k : κ} {es : List (κ × α)} (h : k ∉ es.map (·.1)) {e : κ × α}
    (he : e ∈ es) : e.1 ≠ k := by
  rintro rfl
  exact h (List.mem_map_of_mem he)

theorem find?_of_notMem {k : κ} {es : List (κ × α)} (h : k ∉ es.map (·.1)) : find? k es = none :=
  (get?_eq_none_iff ⟨es⟩ k).mpr h

theorem Distinct.get?_filterMap {d : Dict κ α} (h : d.Distinct) (f : κ → α → Option α) (k : κ) :
    (d.filterMap f).get? k = (d.get? k).bind (f k) := by
  obtain ⟨es⟩ := d
  change find? k (es.filterMap fun e => (f e.1 e.2).map (e.1, ·)) = (find? k es).bind (f k)
  change (es.map (·.1)).Nodup at h
  induction es with
  | nil => rfl
  | cons e es ih =>
    obtain ⟨hfresh, h⟩ := List.nodup_cons.mp h
    by_cases hk : e.1 = k
    · subst hk
      have hlater := ih h
      rw [find?_of_notMem hfresh] at hlater
      rw [find?, if_pos rfl, Option.bind_some]
      cases he : f e.1 e.2 with
      | none =>
        rw [List.filterMap_cons_none (by rw [he]; rfl)]
        exact hlater
      | some v => rw [List.filterMap_cons_some (b := (e.1, v)) (by rw [he]; rfl), find?, if_pos rfl]
    · rw [find?, if_neg hk]
      cases he : f e.1 e.2 with
      | none =>
        rw [List.filterMap_cons_none (by rw [he]; rfl)]
        exact ih h
      | some v =>
        rw [List.filterMap_cons_some (b := (e.1, v)) (by rw [he]; rfl), find?, if_neg hk]
        exact ih h

theorem Distinct.get?_of_mem {d : Dict κ α} (h : d.Distinct) {e : κ × α} (he : e ∈ d.entries) :
    d.get? e.1 = some e.2 := by
  obtain ⟨es⟩ := d
  change (es.map (·.1)).Nodup at h
  change find? e.1 es = some e.2
  induction es with
  | nil => cases he
  | cons a es ih =>
    obtain ⟨hfresh, h⟩ := List.nodup_cons.mp h
    rcases List.mem_cons.mp he with rfl | he
    · rw [find?, if_pos rfl]
    · rw [find?, if_neg (key_ne_of_notMem hfresh he).symm, ih he h]

/-- What becomes of a map is known from what becomes of the values of its keys. -/
theorem Distinct.filterMap_congr {d : Dict κ α} (h : d.Distinct) {f g : κ → α → Option α}
    (hfg : ∀ k v, d.get? k = some v → f k v = g k v) : d.filterMap f = d.filterMap g := by
  rw [Dict.filterMap, Dict.filterMap]
  congr 1
  apply List.filterMap_congr
  intro e he
  rw [hfg e.1 e.2 (h.get?_of_mem he)]

theorem Distinct.filterMap_eq_self {d : Dict κ α} (h : d.Distinct) {f : κ → α → Option α}
    (hf : ∀ k v, d.get? k = some v → f k v = some v) : d.filterMap f = d := by
  rw [h.filterMap_congr (g := fun _ => some) hf, Dict.filterMap]
  exact congrArg Dict.mk List.filterMap_some

/-- A change that brings no key in changes every value where it stands. -/
theorem Distinct.alter_eq_filterMap {d : Dict κ α} (h : d.Distinct) (k : κ)
    {f : Option α → Option α} (hf : f none = none) :
    d.alter k f = d.filterMap fun k' v => if k' = k then f (some v) else some v := by
  obtain ⟨es⟩ := d
  change (es.map (·.1)).Nodup at h
  have hrest : ∀ {es : List (κ × α)}, k ∉ es.map (·.1) →
      (es.filterMap fun e => (if e.1 = k then f (some e.2) else some e.2).map (e.1, ·)) = es := by
    intro es hk
    refine (List.filterMap_congr fun e he => ?_).trans List.filterMap_some
    rw [if_neg (key_ne_of_notMem hk he)]
    rfl
  simp only [Dict.alter, get?, Dict.insert, Dict.erase, Dict.filterMap]
  induction es with
  | nil => rw [find?, hf]; rfl
  | cons e es ih =>
    obtain ⟨hfresh, h⟩ := List.nodup_cons.mp h
    have ih := ih h
    rw [find?]
    by_cases hk : e.1 = k
    · subst hk
      have hkeep : (es.filter fun e' => decide (e'.1 ≠ e.1)) = es := by
        exact List.filter_eq_self.mpr fun e' he' => decide_eq_true (key_ne_of_notMem hfresh he')
      rw [if_pos rfl]
      cases hv : f (some e.2) with
      | none =>
        rw [List.filterMap_cons_none (by rw [if_pos rfl, hv]; rfl), hrest hfresh]
        simp only [List.filter_cons_of_neg (p := fun e' : κ × α => decide (e'.1 ≠ e.1)) (a := e)
          (by simp), hkeep]
      | some v =>
        rw [List.filterMap_cons_some (b := (e.1, v)) (by rw [if_pos rfl, hv]; rfl), hrest hfresh]
        simp only [put, if_pos]
    · rw [if_neg hk, List.filterMap_cons_some (b := e) (by rw [if_neg hk]; rfl)]
      cases hv : f (find? k es) with
      | none =>
        rw [hv] at ih
        simp only [List.filter_cons_of_pos (p := fun e' : κ × α => decide (e'.1 ≠ k)) (a := e)
          (by simpa using hk), (Dict.mk.inj ih)]
      | some v =>
        rw [hv] at ih
        simp only [put, if_neg hk, (Dict.mk.inj ih)]

end SqlAtlas.Dict
