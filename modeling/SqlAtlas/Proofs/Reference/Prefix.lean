import SqlAtlas.Proofs.Reference.Distinct

/-!
# What a limit leaves of an extraction

If no reference is emitted twice, a limit leaves the first references and nothing else. The
provisional references of an ambiguity are emitted right before it, so the ambiguities that are left
are those whose provisional references all are.
-/

namespace SqlAtlas

set_option autoImplicit false

open Text Usage

def Usage.Emission.named? : Emission → Option Reference
  | .reference r => if r.name.isEmpty then none else some r
  | .ambiguity _ => none

theorem Usage.Emission.named?_eq_some {e : Emission} {r : Reference} :
    e.named? = some r ↔ e = .reference r ∧ r.name.isEmpty = false := by
  cases e with
  | reference r' =>
    simp only [named?, Emission.reference.injEq]
    split
    · rename_i hempty
      refine iff_of_false nofun ?_
      rintro ⟨rfl, hname⟩
      rw [hname] at hempty
      cases hempty
    · rename_i hname
      rw [Option.some.injEq]
      constructor
      · rintro rfl
        exact ⟨rfl, by simpa using hname⟩
      · exact And.left
  | ambiguity a => exact iff_of_false nofun fun h => nomatch h.1

/-- The provisional references of every ambiguity are the last references before it. -/
def Adjacent (uri : String) (es : List Emission) : Prop :=
  Preceded (fun pre a => a.provisional ≠ [] ∧
    a.provisionalReferences uri <:+ pre.filterMap Emission.named?) es

/-- Whether all provisional references of an ambiguity are among some references. -/
def Ambiguity.isCovered (uri : String) (references : List Reference) (a : Ambiguity) : Bool :=
  decide (∀ r ∈ a.provisionalReferences uri, r ∈ references)

theorem Ambiguity.isCovered_of_subset {uri : String} {a : Ambiguity} {rs ss : List Reference}
    (hsub : rs ⊆ ss) (h : a.isCovered uri rs = true) : a.isCovered uri ss = true := by
  rw [isCovered, decide_eq_true_eq] at h ⊢
  exact fun r hr => hsub (h r hr)

/-- If the provisional references of an ambiguity come last, they are among the first references only
if these are all. -/
theorem Ambiguity.isCovered_take_iff {uri : String} {a : Ambiguity} {named : List Reference} {limit : Nat}
    (hne : a.provisional ≠ []) (hlast : a.provisionalReferences uri <:+ named) (hnodup : named.Nodup) :
    a.isCovered uri (named.take limit) = true ↔ named.length ≤ limit := by
  rw [isCovered, decide_eq_true_eq]
  constructor
  · intro hall
    have hprovided : a.provisionalReferences uri ≠ [] := by
      rwa [provisionalReferences, Ne, List.map_eq_nil_iff]
    obtain ⟨init, r, hsplit⟩ := (List.eq_nil_or_concat' _).resolve_left hprovided
    obtain ⟨front, rfl⟩ := hlast
    have hmem := hall r (by rw [hsplit]; exact List.mem_concat_self)
    rw [hsplit, ← List.append_assoc] at hnodup hmem ⊢
    by_contra hlt
    rw [List.length_append, List.length_singleton] at hlt
    rw [List.take_append_of_le_length (by omega)] at hmem
    exact (List.nodup_append.mp hnodup).2.2 r (List.mem_of_mem_take hmem) r (List.mem_singleton_self r) rfl
  · intro hle r hr
    rw [List.take_of_length_le hle]
    exact hlast.subset hr

namespace Extraction

structure Capped (uri : String) (limit : Nat) (named : List Reference) (emitted : List Ambiguity)
    (x : Extraction) : Prop where
  references : x.references = named.take limit
  truncated : x.truncated = true ↔ limit < named.length
  ambiguities : x.ambiguities = emitted.filter (·.isCovered uri (named.take limit))

section

variable {uri : String} {limit : Nat} {named : List Reference} {emitted : List Ambiguity}
  {x : Extraction}

theorem capped_empty (uri : String) (limit : Nat) : Capped uri limit [] [] {} where
  references := List.take_nil.symm
  truncated := iff_of_false nofun (Nat.not_lt_zero limit)
  ambiguities := rfl

theorem Capped.full (h : Capped uri limit named emitted x) (r : Reference)
    (hfull : limit ≤ named.length) :
    Capped uri limit (named ++ [r]) emitted { x with truncated := true } := by
  have hsame : (named ++ [r]).take limit = named.take limit := List.take_append_of_le_length hfull
  refine ⟨?_, ?_, ?_⟩
  · rw [hsame]
    exact h.references
  · rw [List.length_append]
    exact iff_of_true rfl (Nat.lt_succ_of_le hfull)
  · rw [hsame]
    exact h.ambiguities

theorem Capped.add (h : Capped uri limit named emitted x) (r : Reference)
    (hroom : named.length < limit) (hcovered : ∀ a ∈ emitted, a.isCovered uri named) :
    Capped uri limit (named ++ [r]) emitted { x with references := x.references ++ [r] } := by
  have hall : named.take limit = named := List.take_of_length_le (Nat.le_of_lt hroom)
  have hmore : (named ++ [r]).take limit = named ++ [r] :=
    List.take_of_length_le (by rw [List.length_append]; exact hroom)
  refine ⟨?_, ?_, ?_⟩
  · rw [hmore, h.references, hall]
  · rw [h.truncated, List.length_append, List.length_singleton]
    omega
  · rw [hmore, h.ambiguities, hall]
    refine List.filter_congr fun a ha => ?_
    rw [hcovered a ha, Ambiguity.isCovered_of_subset (List.subset_append_left named [r]) (hcovered a ha)]

theorem step_nameless {r : Reference} (hname : r.name.isEmpty = true) :
    step limit x (.reference r) = x := by
  rw [step, if_pos (by rw [hname, Bool.or_true])]

theorem Capped.reference (h : Capped uri limit named emitted x) {r : Reference}
    (hname : r.name.isEmpty = false) (hnew : r ∉ named) (hcovered : ∀ a ∈ emitted, a.isCovered uri named) :
    Capped uri limit (named ++ [r]) emitted (step limit x (.reference r)) := by
  rw [step, hname, Bool.or_false]
  split
  · rename_i hclosed
    have hfull := h.full r (Nat.le_of_lt (h.truncated.mp hclosed))
    rwa [← hclosed] at hfull
  · rename_i hopen
    rw [h.truncated, Nat.not_lt] at hopen
    have hkept : x.references = named := by rw [h.references, List.take_of_length_le hopen]
    split
    · rename_i hlimit
      rw [hkept] at hlimit
      exact h.full r hlimit
    · rename_i hroom
      rw [hkept, Nat.not_le] at hroom
      rw [if_neg (by rw [hkept]; simpa using hnew)]
      exact h.add r hroom hcovered

theorem Capped.ambiguity (h : Capped uri limit named emitted x) {a : Ambiguity} (hne : a.provisional ≠ [])
    (hlast : a.provisionalReferences uri <:+ named) (hnodup : named.Nodup) :
    Capped uri limit named (emitted ++ [a]) (step limit x (.ambiguity a)) := by
  have hcovered : a.isCovered uri (named.take limit) = true ↔ named.length ≤ limit :=
    Ambiguity.isCovered_take_iff hne hlast hnodup
  rw [step]
  split
  · rename_i hclosed
    rw [h.truncated, ← Nat.not_le, ← hcovered, Bool.not_eq_true] at hclosed
    refine ⟨h.references, h.truncated, ?_⟩
    rw [List.filter_append, List.filter_singleton, hclosed, h.ambiguities]
    exact (List.append_nil _).symm
  · rename_i hopen
    rw [h.truncated, Nat.not_lt, ← hcovered] at hopen
    refine ⟨h.references, h.truncated, ?_⟩
    rw [List.filter_append, List.filter_singleton, hopen, h.ambiguities]
    rfl

end

section

variable {uri : String} {limit : Nat} {es : List Emission} {x : Extraction}

theorem Capped.foldl {pre : List Emission}
    (h : Capped uri limit (pre.filterMap Emission.named?) (pre.filterMap Emission.ambiguity?) x)
    (hadjacent : Adjacent uri (pre ++ es)) (hnodup : ((pre ++ es).filterMap Emission.named?).Nodup) :
    Capped uri limit ((pre ++ es).filterMap Emission.named?) ((pre ++ es).filterMap Emission.ambiguity?)
      (es.foldl (step limit) x) := by
  induction es generalizing pre x with
  | nil => rwa [List.append_nil]
  | cons e es ih =>
    rw [List.append_cons] at hadjacent hnodup ⊢
    refine ih ?_ hadjacent hnodup
    rw [List.filterMap_append, List.filterMap_append, List.append_assoc] at hnodup
    obtain ⟨hpre, _, hapart⟩ := List.nodup_append.mp hnodup
    rw [List.filterMap_append, List.filterMap_append]
    cases e with
    | reference r =>
      cases hname : r.name.isEmpty with
      | true =>
        have hnone : [Emission.reference r].filterMap Emission.named? = [] := by
          simp [Emission.named?, hname]
        rw [hnone, step_nameless hname, List.append_nil]
        exact (List.append_nil (pre.filterMap Emission.ambiguity?)).symm ▸ h
      | false =>
        have hone : [Emission.reference r].filterMap Emission.named? = [r] := by
          simp [Emission.named?, hname]
        rw [hone] at hapart ⊢
        rw [show [Emission.reference r].filterMap Emission.ambiguity? = [] from rfl, List.append_nil]
        refine h.reference hname (fun hmem => ?_) fun a ha => ?_
        · exact hapart r hmem r (List.mem_append_left _ (List.mem_singleton_self r)) rfl
        · obtain ⟨front, back, rfl, _, hlast⟩ := (Preceded.left (Preceded.left hadjacent)).exists_front ha
          rw [Ambiguity.isCovered, decide_eq_true_eq, List.filterMap_append]
          exact fun r' hr' => List.mem_append_left _ (hlast.subset hr')
    | ambiguity a =>
      obtain ⟨hne, hlast⟩ := hadjacent pre a es (by simp)
      rw [show [Emission.ambiguity a].filterMap Emission.named? = [] from rfl, List.append_nil]
      exact h.ambiguity hne hlast hpre

/-- An ambiguity that is left has a reference at its place. -/
theorem Capped.settle
    (h : Capped uri limit (es.filterMap Emission.named?) (es.filterMap Emission.ambiguity?) x)
    (hadjacent : Adjacent uri es) : settle x = x := by
  rw [Extraction.settle]
  split
  · have hall : ∀ a ∈ x.ambiguities, (x.references.any fun r => decide (r.place = a.place)) = true := by
      intro a ha
      rw [h.ambiguities, List.mem_filter, Ambiguity.isCovered, decide_eq_true_eq, ← h.references] at ha
      obtain ⟨hemitted, hcovered⟩ := ha
      obtain ⟨_, _, _, hne, _⟩ := hadjacent.exists_front hemitted
      obtain ⟨t, ht⟩ := List.exists_mem_of_ne_nil _ hne
      refine List.any_eq_true.mpr ⟨_, hcovered _ (List.mem_map_of_mem ht), ?_⟩
      rw [decide_eq_true_eq]
    rw [List.filter_eq_self.mpr hall]
  · rfl

theorem capped_ofEmissions (limit : Nat) (hadjacent : Adjacent uri es)
    (hnodup : (es.filterMap Emission.named?).Nodup) :
    Capped uri limit (es.filterMap Emission.named?) (es.filterMap Emission.ambiguity?)
      (ofEmissions limit es) := by
  have h : Capped uri limit (([] ++ es).filterMap Emission.named?)
      (([] ++ es).filterMap Emission.ambiguity?) _ := (capped_empty uri limit).foldl hadjacent hnodup
  rw [List.nil_append] at h
  rwa [ofEmissions, h.settle hadjacent]

end

end Extraction

/-! ### Texts -/

namespace Usage

variable (uri : String) (cs : List Char) (catalog : Catalog)

theorem named_nodup :
    ((emissions (.ofText uri cs (.ofText cs)) catalog).filterMap Emission.named?).Nodup := by
  refine List.Nodup.filterMap ?_ (emissions_nodup uri cs catalog)
  intro e e' r he he'
  rw [(Emission.named?_eq_some.mp he).1, (Emission.named?_eq_some.mp he').1]

theorem Undecided.named {s : Source} {here : Span} {a : Ambiguity} (h : Undecided s catalog here a) :
    (bareReferences s a.column a.provisional here).filterMap Emission.named? =
      a.provisionalReferences s.uri := by
  rw [bareReferences, List.filterMap_map, Ambiguity.provisionalReferences, ← List.filterMap_eq_map]
  refine List.filterMap_congr fun t ht => Emission.named?_eq_some.mpr ⟨?_, ?_⟩
  · rw [h.place]
    rfl
  · exact Extraction.name_nonempty_of_provisional (List.mem_map_of_mem ht)

theorem adjacent_emissions (s : Source) : Adjacent s.uri (emissions s catalog) := by
  refine preceded_emissions ?_ s catalog ?_
  · rintro front pre a ⟨hne, hlast⟩
    rw [List.filterMap_append]
    exact ⟨hne, hlast.trans (List.suffix_append _ _)⟩
  · intro here a hundecided
    rw [hundecided.named]
    exact ⟨hundecided.provided, List.suffix_refl _⟩

end Usage

theorem capped_extractReferences (uri : String) (cs : List Char) (catalog : Catalog) (limit : Nat) :
    Extraction.Capped uri limit
      ((emissions (.ofText uri cs (.ofText cs)) catalog).filterMap Emission.named?)
      ((emissions (.ofText uri cs (.ofText cs)) catalog).filterMap Emission.ambiguity?)
      (extractReferences uri cs (.ofText cs) catalog limit) :=
  Extraction.capped_ofEmissions limit (adjacent_emissions catalog (.ofText uri cs (.ofText cs)))
    (named_nodup uri cs catalog)

/-- A text has one full extraction, and a limit leaves the first references of it, tells whether there
are more, and leaves the ambiguities whose provisional references are all among these. -/
theorem extractReferences_take (uri : String) (cs : List Char) (catalog : Catalog) :
    ∃ full : Extraction,
      (∀ limit, full.references.length ≤ limit →
        extractReferences uri cs (.ofText cs) catalog limit = full) ∧
      ∀ limit,
        (extractReferences uri cs (.ofText cs) catalog limit).references =
          full.references.take limit ∧
        ((extractReferences uri cs (.ofText cs) catalog limit).truncated = true ↔
          limit < full.references.length) ∧
        (extractReferences uri cs (.ofText cs) catalog limit).ambiguities =
          full.ambiguities.filter (·.isCovered uri (full.references.take limit)) := by
  have hcapped := capped_extractReferences uri cs catalog
  generalize (emissions (.ofText uri cs (.ofText cs)) catalog).filterMap Emission.named? = named at hcapped
  generalize (emissions (.ofText uri cs (.ofText cs)) catalog).filterMap Emission.ambiguity? = emitted
    at hcapped
  refine ⟨⟨named, emitted.filter (·.isCovered uri named), false⟩, ?_, ?_⟩
  · intro limit hle
    change named.length ≤ limit at hle
    obtain ⟨hreferences, htruncated, hambiguities⟩ := hcapped limit
    rw [List.take_of_length_le hle] at hreferences hambiguities
    have hopen : (extractReferences uri cs (.ofText cs) catalog limit).truncated = false := by
      rw [← Bool.not_eq_true, htruncated]
      omega
    cases hx : extractReferences uri cs (.ofText cs) catalog limit
    rw [hx] at hreferences hambiguities hopen
    rw [Extraction.mk.injEq]
    exact ⟨hreferences, hambiguities, hopen⟩
  · intro limit
    obtain ⟨hreferences, htruncated, hambiguities⟩ := hcapped limit
    refine ⟨hreferences, htruncated, ?_⟩
    rw [hambiguities, List.filter_filter]
    refine List.filter_congr fun a _ => ?_
    rw [eq_comm, Bool.and_eq_left_iff_imp]
    exact Ambiguity.isCovered_of_subset (List.take_sublist _ _).subset

/-- A limit between the two columns of a word leaves the first of them and no ambiguity. -/
example :
    let text := "SELECT id FROM a JOIN b".toList
    let x := extractReferences "q.sql" text (.ofText text) (fun _ column => column == .ofText "id") 3
    x.references.map (·.name) = [.ofText "a", .ofText "b", .ofText "a.id"] ∧ x.truncated = true ∧
      x.ambiguities = [] := by
  decide +kernel

end SqlAtlas
