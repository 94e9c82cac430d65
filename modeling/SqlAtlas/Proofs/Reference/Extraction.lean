import Mathlib.Data.List.Nodup
import SqlAtlas.Reference.Extraction

/-!
# What an extraction keeps of the emissions

References are kept once each, as emitted, and all of them as long as the limit is not reached. An
ambiguity is kept only while nothing has been left out. Since it is emitted after the references
that it is about, these have been kept before it.
-/

namespace SqlAtlas

set_option autoImplicit false

open Text Usage

theorem Name.qualified_left_injective {t t' column : Name}
    (h : Name.qualified t column = Name.qualified t' column) : t = t' := by
  obtain ⟨cs⟩ := t
  obtain ⟨cs'⟩ := t'
  have hchars : cs = cs' := List.append_cancel_right (congrArg Name.chars h)
  rw [hchars]

def Ambiguity.provisionalReferences (uri : String) (a : Ambiguity) : List Reference :=
  a.provisional.map fun table => ⟨Name.qualified table a.column, uri, a.place, .column⟩

theorem Ambiguity.mem_provisionalReferences {uri : String} {a : Ambiguity} {r : Reference} :
    r ∈ a.provisionalReferences uri ↔
      ∃ table ∈ a.provisional, r = ⟨Name.qualified table a.column, uri, a.place, .column⟩ := by
  rw [provisionalReferences, List.mem_map]
  exact ⟨fun ⟨t, ht, h⟩ => ⟨t, ht, h.symm⟩, fun ⟨t, ht, h⟩ => ⟨t, ht, h.symm⟩⟩

theorem Ambiguity.place_of_mem_provisionalReferences {uri : String} {a : Ambiguity} {r : Reference}
    (h : r ∈ a.provisionalReferences uri) : r.place = a.place := by
  obtain ⟨table, _, rfl⟩ := Ambiguity.mem_provisionalReferences.mp h
  rfl

def Usage.Emission.ambiguity? : Emission → Option Ambiguity
  | .reference _ => none
  | .ambiguity a => some a

/-- Every ambiguity comes after emissions that stand in a relation to it. -/
def Preceded (P : List Emission → Ambiguity → Prop) (es : List Emission) : Prop :=
  ∀ pre a post, es = pre ++ .ambiguity a :: post → P pre a

section

variable {P : List Emission → Ambiguity → Prop} {es fs : List Emission}

theorem preceded_of_references (h : ∀ e ∈ es, e.ambiguity? = none) : Preceded P es := by
  intro pre a post hes
  have hnone := h (.ambiguity a) (by rw [hes]; simp)
  cases hnone

theorem Preceded.left (h : Preceded P (es ++ fs)) : Preceded P es := by
  rintro pre a post rfl
  exact h pre a (post ++ fs) (by simp)

theorem Preceded.exists_front (h : Preceded P es) {a : Ambiguity}
    (ha : a ∈ es.filterMap Emission.ambiguity?) :
    ∃ pre post, es = pre ++ .ambiguity a :: post ∧ P pre a := by
  obtain ⟨e, he, hea⟩ := List.mem_filterMap.mp ha
  cases e with
  | reference r => cases hea
  | ambiguity b =>
    cases hea
    obtain ⟨pre, post, hsplit⟩ := List.append_of_mem he
    exact ⟨pre, post, hsplit, h pre a post hsplit⟩

theorem Preceded.append (hmono : ∀ front {pre a}, P pre a → P (front ++ pre) a) (he : Preceded P es)
    (hf : Preceded P fs) : Preceded P (es ++ fs) := by
  intro pre a post hsplit
  rcases List.append_eq_append_iff.mp hsplit with ⟨mid, rfl, hfs⟩ | ⟨mid, hes, hrest⟩
  · exact hmono es (hf mid a post hfs)
  · cases mid with
    | nil =>
      rw [List.append_nil] at hes
      subst hes
      have hfirst := hmono es (hf [] a post hrest.symm)
      rwa [List.append_nil] at hfirst
    | cons e mid =>
      rw [List.cons_append] at hrest
      cases hrest
      exact he pre a mid hes

theorem preceded_concat {a : Ambiguity} (hes : ∀ e ∈ es, e.ambiguity? = none) (ha : P es a) :
    Preceded P (es ++ [.ambiguity a]) := by
  intro pre b post hsplit
  rcases List.append_eq_append_iff.mp hsplit with ⟨mid, rfl, hmid⟩ | ⟨mid, hmid, hrest⟩
  · cases mid with
    | nil =>
      cases hmid
      rwa [List.append_nil]
    | cons e mid => simp at hmid
  · cases mid with
    | nil =>
      rw [List.append_nil] at hmid
      subst hmid
      cases hrest
      exact ha
    | cons e mid =>
      cases hrest
      have hnone := hes (.ambiguity b) (by rw [hmid]; simp)
      cases hnone

theorem preceded_flatMap {ι : Type} (hmono : ∀ front {pre a}, P pre a → P (front ++ pre) a)
    (is : List ι) (f : ι → List Emission) (h : ∀ i ∈ is, Preceded P (f i)) :
    Preceded P (is.flatMap f) := by
  induction is with
  | nil => exact preceded_of_references (by simp)
  | cons i is ih =>
    rw [List.flatMap_cons]
    exact (h i List.mem_cons_self).append hmono (ih fun j hj => h j (List.mem_cons_of_mem i hj))

end

def Announced (uri : String) (es : List Emission) : Prop :=
  Preceded (fun pre a => ∀ r ∈ a.provisionalReferences uri, .reference r ∈ pre) es

namespace Extraction

structure Collected (uri : String) (es : List Emission) (x : Extraction) : Prop where
  emitted : ∀ r ∈ x.references, .reference r ∈ es
  nodup : x.references.Nodup
  complete : x.truncated = false →
    ∀ r, .reference r ∈ es → r.name.isEmpty = false → r ∈ x.references
  ambiguous : x.ambiguities.Sublist (es.filterMap Emission.ambiguity?)
  covered : ∀ a ∈ x.ambiguities, ∀ r ∈ a.provisionalReferences uri, r ∈ x.references

theorem collected_empty (uri : String) : Collected uri [] {} where
  emitted r hr := by cases hr
  nodup := List.nodup_nil
  complete _ r hr := by cases hr
  ambiguous := List.Sublist.refl _
  covered a ha := by cases ha

theorem name_nonempty_of_provisional {uri : String} {a : Ambiguity} {r : Reference}
    (h : r ∈ a.provisionalReferences uri) : r.name.isEmpty = false := by
  obtain ⟨table, _, rfl⟩ := Ambiguity.mem_provisionalReferences.mp h
  simp [Name.isEmpty, Name.qualified]

theorem Collected.ambiguous_append {uri : String} {es : List Emission} {x : Extraction}
    (h : Collected uri es x) (more : List Emission) :
    x.ambiguities.Sublist ((es ++ more).filterMap Emission.ambiguity?) := by
  rw [List.filterMap_append]
  exact h.ambiguous.trans (List.sublist_append_left _ _)

/-- An emission that is left out, or was kept before, changes nothing. -/
theorem Collected.skip {uri : String} {es : List Emission} {x : Extraction} (h : Collected uri es x)
    (e : Emission)
    (hskip : x.truncated = false → ∀ r, e = .reference r → r.name.isEmpty = false →
      r ∈ x.references) : Collected uri (es ++ [e]) x where
  emitted r hr := List.mem_append_left _ (h.emitted r hr)
  nodup := h.nodup
  complete hopen r hr hname := by
    rcases List.mem_append.mp hr with hr | hr
    · exact h.complete hopen r hr hname
    · exact hskip hopen r (List.mem_singleton.mp hr).symm hname
  ambiguous := h.ambiguous_append _
  covered := h.covered

theorem Collected.add {uri : String} {es : List Emission} {x : Extraction} (h : Collected uri es x)
    {r : Reference} (hnew : r ∉ x.references) :
    Collected uri (es ++ [.reference r]) { x with references := x.references ++ [r] } where
  emitted r' hr' := by
    rcases List.mem_append.mp hr' with hr' | hr'
    · exact List.mem_append_left _ (h.emitted r' hr')
    · rw [List.mem_singleton.mp hr']
      exact List.mem_append_right _ List.mem_cons_self
  nodup := by
    rw [List.nodup_append]
    refine ⟨h.nodup, List.nodup_singleton r, ?_⟩
    rintro a ha b hb rfl
    rw [List.mem_singleton.mp hb] at ha
    exact hnew ha
  complete hopen r' hr' hname := by
    rcases List.mem_append.mp hr' with hr' | hr'
    · exact List.mem_append_left _ (h.complete hopen r' hr' hname)
    · cases List.mem_singleton.mp hr'
      exact List.mem_append_right _ List.mem_cons_self
  ambiguous := h.ambiguous_append _
  covered a ha r' hr' := List.mem_append_left _ (h.covered a ha r' hr')

theorem Collected.addAmbiguity {uri : String} {es : List Emission} {x : Extraction}
    (h : Collected uri es x) {a : Ambiguity} (hcovered : ∀ r ∈ a.provisionalReferences uri, r ∈ x.references) :
    Collected uri (es ++ [.ambiguity a]) { x with ambiguities := x.ambiguities ++ [a] } := by
  have hskip := h.skip (.ambiguity a) fun _ r hr => by cases hr
  refine ⟨hskip.emitted, h.nodup, hskip.complete, ?_, ?_⟩
  · rw [List.filterMap_append]
    exact h.ambiguous.append (List.Sublist.refl [a])
  · intro b hb r hr
    rcases List.mem_append.mp hb with hb | hb
    · exact h.covered b hb r hr
    · cases List.mem_singleton.mp hb
      exact hcovered r hr

theorem Collected.step {uri : String} {es : List Emission} {x : Extraction} (limit : Nat)
    (h : Collected uri es x) (e : Emission)
    (hannounced : ∀ a, e = .ambiguity a → ∀ r ∈ a.provisionalReferences uri, .reference r ∈ es) :
    Collected uri (es ++ [e]) (step limit x e) := by
  cases e with
  | reference r =>
    rw [Extraction.step]
    split
    · rename_i hclosed
      refine h.skip _ fun hopen r' hr' hname => ?_
      cases hr'
      simp [hopen, hname] at hclosed
    · split
      · exact ⟨fun r' hr' => List.mem_append_left _ (h.emitted r' hr'), h.nodup, nofun,
          h.ambiguous_append _, h.covered⟩
      · split
        · rename_i hseen
          refine h.skip _ fun _ r' hr' _ => ?_
          cases hr'
          simpa using hseen
        · rename_i hnew
          exact h.add (by simpa using hnew)
  | ambiguity a =>
    rw [Extraction.step]
    split
    · exact h.skip _ fun _ r hr => by cases hr
    · rename_i hopen
      refine h.addAmbiguity fun r hr => ?_
      exact h.complete (by simpa using hopen) r (hannounced a rfl r hr) (name_nonempty_of_provisional hr)

theorem Collected.foldl {uri : String} {pre es : List Emission} {x : Extraction} (limit : Nat)
    (h : Collected uri pre x) (hannounced : Announced uri (pre ++ es)) :
    Collected uri (pre ++ es) (es.foldl (Extraction.step limit) x) := by
  induction es generalizing pre x with
  | nil => rwa [List.append_nil]
  | cons e es ih =>
    rw [List.append_cons] at hannounced ⊢
    refine ih (h.step limit e ?_) hannounced
    rintro a rfl
    exact hannounced pre a es (by simp)

theorem collected_ofEmissions {uri : String} {es : List Emission} (limit : Nat)
    (hannounced : Announced uri es) : Collected uri es (ofEmissions limit es) := by
  have h : Collected uri ([] ++ es) _ := (collected_empty uri).foldl limit hannounced
  rw [List.nil_append] at h
  rw [ofEmissions, settle]
  split
  · exact ⟨h.emitted, h.nodup, h.complete, List.filter_sublist.trans h.ambiguous,
      fun a ha => h.covered a (List.mem_of_mem_filter ha)⟩
  · exact h

theorem named_step (limit : Nat) {x : Extraction} (h : ∀ r ∈ x.references, r.name.isEmpty = false)
    (e : Emission) : ∀ r ∈ (step limit x e).references, r.name.isEmpty = false := by
  cases e with
  | reference r =>
    rw [Extraction.step]
    split
    · exact h
    · rename_i hopen
      rw [Bool.not_eq_true, Bool.or_eq_false_iff] at hopen
      split
      · exact h
      · split
        · exact h
        · intro r' hr'
          rcases List.mem_append.mp hr' with hr' | hr'
          · exact h r' hr'
          · rw [List.mem_singleton.mp hr']
            exact hopen.2
  | ambiguity a =>
    rw [Extraction.step]
    split <;> exact h

/-- Every reference that is kept names something. -/
theorem named_ofEmissions (limit : Nat) (es : List Emission) :
    ∀ r ∈ (ofEmissions limit es).references, r.name.isEmpty = false := by
  have hfold : ∀ {x : Extraction}, (∀ r ∈ x.references, r.name.isEmpty = false) →
      ∀ r ∈ (es.foldl (step limit) x).references, r.name.isEmpty = false := by
    induction es with
    | nil => exact id
    | cons e es ih => exact fun h => ih (named_step limit h e)
  rw [ofEmissions, settle]
  split <;> exact hfold nofun

/-- What the corrections of an extraction rest on. All provisional references are there, no two
ambiguities stand at the same place, and a provisional name stands at its place for a column
only. -/
structure Sound (uri : String) (x : Extraction) : Prop where
  home : ∀ r ∈ x.references, r.uri = uri
  covered : ∀ a ∈ x.ambiguities, ∀ r ∈ a.provisionalReferences uri, r ∈ x.references
  provided : ∀ a ∈ x.ambiguities, a.provisional ≠ []
  apart : x.ambiguities.Pairwise fun a b => a.place ≠ b.place
  column : ∀ a ∈ x.ambiguities, ∀ r ∈ x.references, r.place = a.place →
    (∃ table ∈ a.provisional, r.name = Name.qualified table a.column) → r.kind = .column

theorem Sound.eq_of_place {uri : String} {x : Extraction} (h : x.Sound uri)
    {a b : Ambiguity} (ha : a ∈ x.ambiguities) (hb : b ∈ x.ambiguities) (hplace : a.place = b.place) :
    a = b :=
  List.inj_on_of_nodup_map (List.pairwise_map.mpr h.apart) ha hb hplace

end Extraction

end SqlAtlas
