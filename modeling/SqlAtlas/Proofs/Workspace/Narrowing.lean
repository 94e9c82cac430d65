import Mathlib.Logic.ExistsUnique
import SqlAtlas.Proofs.Workspace.Account

/-!
# Corrections only narrow

Trees are not trusted, and arrive late. Whatever they are, a file that was indexed keeps all
references that nobody doubts, gets no new ones, and at the place of every ambiguity it keeps at
least one reference: all of them before a correction is applied, exactly one after it.
-/

namespace SqlAtlas

set_option autoImplicit false

open Workspace SymbolIndex

namespace Execution

/-- Whatever trees corrections get, and in whatever order callers and corrections take their turns:
a file whose current generation was indexed has references that were found in it, all of those
that no ambiguity is about, and for every ambiguity at least one. These are all provisional ones
before a correction is applied, and exactly one after it. -/
theorem corrections_narrow {settings : Settings} {w : Workspace}
    (hw : ofSettings settings = .ok w) (callers : List (List Operation)) {e : Execution}
    (he : Reachable (fun _ _ _ => True) (ofCallers w callers) e) {uri : String} {generation : Nat}
    {x : Extraction} (hindexed : .indexed uri generation x ∈ e.events)
    (hlive : e.workspace.index.generation? uri = some generation) :
    e.workspace.index.referencesInFile uri ⊆ x.references ∧
      (∀ r ∈ x.references, (∀ a ∈ x.ambiguities, r ∉ a.provisionalReferences uri) →
        r ∈ e.workspace.index.referencesInFile uri) ∧
      ∀ a ∈ x.ambiguities,
        (∃ r ∈ a.provisionalReferences uri, r ∈ e.workspace.index.referencesInFile uri) ∧
        ((∀ keep, .applied ⟨uri, generation, a⟩ keep ∉ e.events) →
          ∀ r ∈ a.provisionalReferences uri, r ∈ e.workspace.index.referencesInFile uri) ∧
        ∀ keep, .applied ⟨uri, generation, a⟩ keep ∈ e.events →
          ∃! r, r ∈ a.provisionalReferences uri ∧ r ∈ e.workspace.index.referencesInFile uri := by
  obtain ⟨hn, ht⟩ := he.accounted hw
  have hcurrent : Record.Current e.record uri generation x := ⟨hindexed, hlive⟩
  have hsound := ht.sound hindexed
  have hmem : ∀ {r}, r ∈ e.workspace.index.referencesInFile uri ↔ r ∈ x.references ∧
      ¬∃ a ∈ x.ambiguities, ∃ keep, .applied ⟨uri, generation, a⟩ keep ∈ e.events ∧
        r ∈ a.provisionalReferences uri ∧ r.name ≠ Name.qualified keep a.column := by
    intro r
    refine (ht.mem_referencesInFile hcurrent).trans (and_congr_right fun hr => ?_)
    rw [← Bool.not_eq_true]
    exact not_congr (ht.retracts_iff hn hcurrent hr)
  -- what is at an ambiguity's place is retracted by its own correction only
  have hown : ∀ {a b r}, a ∈ x.ambiguities → b ∈ x.ambiguities → r ∈ a.provisionalReferences uri →
      r ∈ b.provisionalReferences uri → b = a := by
    intro a b r ha hb hra hrb
    refine hsound.eq_of_place hb ha ?_
    rw [← Ambiguity.place_of_mem_provisionalReferences hra,
      ← Ambiguity.place_of_mem_provisionalReferences hrb]
  refine ⟨fun r hr => (hmem.mp hr).1, ?_, ?_⟩
  · intro r hr hno
    refine hmem.mpr ⟨hr, ?_⟩
    rintro ⟨a, ha, keep, _, hprovisional, _⟩
    exact hno a ha hprovisional
  intro a ha
  have hall : (∀ keep, .applied ⟨uri, generation, a⟩ keep ∉ e.events) →
      ∀ r ∈ a.provisionalReferences uri, r ∈ e.workspace.index.referencesInFile uri := by
    intro hnone r hr
    refine hmem.mpr ⟨hsound.covered a ha r hr, ?_⟩
    rintro ⟨b, hb, keep, happlied, hrb, _⟩
    cases hown ha hb hr hrb
    exact hnone keep happlied
  have hone : ∀ keep, .applied ⟨uri, generation, a⟩ keep ∈ e.events →
      ∃! r, r ∈ a.provisionalReferences uri ∧ r ∈ e.workspace.index.referencesInFile uri := by
    intro keep happlied
    have hkept : (⟨Name.qualified keep a.column, uri, a.place, .column⟩ : Reference) ∈
        a.provisionalReferences uri :=
      Ambiguity.mem_provisionalReferences.mpr ⟨keep, (ht.kept happlied).1, rfl⟩
    refine ⟨_, ⟨hkept, hmem.mpr ⟨hsound.covered a ha _ hkept, ?_⟩⟩, ?_⟩
    · rintro ⟨b, hb, keep', happlied', hrb, hother⟩
      cases hown ha hb hkept hrb
      cases ht.kept_unique happlied happlied'
      exact hother rfl
    · rintro r ⟨hr, hpresent⟩
      have hname : r.name = Name.qualified keep a.column := by
        by_contra hother
        exact (hmem.mp hpresent).2 ⟨a, ha, keep, happlied, hr, hother⟩
      obtain ⟨table, _, rfl⟩ := Ambiguity.mem_provisionalReferences.mp hr
      rw [← hname]
  refine ⟨?_, hall, hone⟩
  by_cases happlied : ∃ keep, .applied ⟨uri, generation, a⟩ keep ∈ e.events
  · obtain ⟨keep, happlied⟩ := happlied
    obtain ⟨r, ⟨hr, hpresent⟩, _⟩ := hone keep happlied
    exact ⟨r, hr, hpresent⟩
  · obtain ⟨table, htable⟩ := List.exists_mem_of_ne_nil _ (hsound.provided a ha)
    have hr : ⟨Name.qualified table a.column, uri, a.place, .column⟩ ∈ a.provisionalReferences uri :=
      Ambiguity.mem_provisionalReferences.mpr ⟨table, htable, rfl⟩
    exact ⟨_, hr, hall (not_exists.mp happlied) _ hr⟩

/-- Two callers index a schema and an update, and the correction of the update is applied. -/
theorem corrections_narrow_update :
    let callers : List (List Operation) :=
      [[.indexFile "s.sql" sampleSchema], [.indexFile "q.sql" sampleUpdate]]
    let e := (ofCallers ⟨{}, [], {}, {}, [], []⟩ callers).run
      [.call 0, .call 1, .call 1, .begin 0, .answer 0 (some sampleTree), .finish 0]
    let a : Ambiguity := ⟨⟨0, 13, 14⟩, .ofText "x", [.ofText "a", .ofText "b"],
      [.ofText "a", .ofText "b"], ⟨[(['b'], .table (.ofText "b")), (['a'], .table (.ofText "a"))]⟩,
      sampleUpdate⟩
    let x : Extraction :=
      { references := [⟨.ofText "a", "q.sql", ⟨0, 7, 8⟩, .table⟩,
          ⟨.ofText "b", "q.sql", ⟨0, 24, 25⟩, .table⟩] ++ a.provisionalReferences "q.sql"
        ambiguities := [a] }
    (.indexed "q.sql" 2 x ∈ e.events ∧ e.workspace.index.generation? "q.sql" = some 2 ∧
      .applied ⟨"q.sql", 2, a⟩ (.ofText "a") ∈ e.events) ∧
    e.workspace.index.referencesInFile "q.sql" ⊆ x.references ∧
      ∃! r, r ∈ a.provisionalReferences "q.sql" ∧
        r ∈ e.workspace.index.referencesInFile "q.sql" := by
  intro callers e a x
  have hsettings : ofSettings {} = .ok ⟨{}, [], {}, {}, [], []⟩ := rfl
  have hreach : Reachable (fun _ _ _ => True) (ofCallers ⟨{}, [], {}, {}, [], []⟩ callers) e :=
    reachable_run _ (by simp [Move.Faithful])
  have hrun : .indexed "q.sql" 2 x ∈ e.events ∧ e.workspace.index.generation? "q.sql" = some 2 ∧
      .applied ⟨"q.sql", 2, a⟩ (.ofText "a") ∈ e.events := by
    decide +kernel
  obtain ⟨hsubset, _, hambiguities⟩ := corrections_narrow hsettings callers hreach hrun.1 hrun.2.1
  exact ⟨hrun, hsubset, (hambiguities a List.mem_cons_self).2.2 _ hrun.2.2⟩

end Execution

end SqlAtlas
