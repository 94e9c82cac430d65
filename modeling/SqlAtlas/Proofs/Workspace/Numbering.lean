import SqlAtlas.Proofs.Index.Generation
import SqlAtlas.Proofs.Workspace.Record

/-!
# Generations of a record

Every generation that was written down has been given once, and the current generation of a file is
its last. So a file that is published again, or removed, has no indexing until a new one is written
down.
-/

namespace SqlAtlas

set_option autoImplicit false

open Workspace SymbolIndex

namespace Record

theorem indexed_mem_applied {es : List Event} {uri : String} {generation : Nat} {x : Extraction}
    {c : Correction} {keep : Name} :
    .indexed uri generation x ∈ es ++ [.applied c keep] ↔ .indexed uri generation x ∈ es := by
  simp

/-- The indexing that gave a file its current generation. -/
structure Current (r : Record) (uri : String) (generation : Nat) (x : Extraction) : Prop where
  written : .indexed uri generation x ∈ r.events
  live : r.index.generation? uri = some generation

/-- The generations that were written down have been given, each once, and the current one of a
file is its last. -/
structure Numbered (r : Record) : Prop where
  issued : Issued r.index
  given : ∀ {uri generation x}, .indexed uri generation x ∈ r.events →
    generation ≤ r.index.lastGeneration
  once : ∀ {uri uri' generation x x'}, .indexed uri generation x ∈ r.events →
    .indexed uri' generation x' ∈ r.events → uri = uri' ∧ x = x'
  latest : ∀ {uri generation generation' x}, r.index.generation? uri = some generation →
    .indexed uri generation' x ∈ r.events → generation' ≤ generation

/-- A file is published without anything being written down, or it is removed. -/
theorem Numbered.clear {r : Record} (h : Numbered r) (op : IndexOperation) (jobs : List Correction) :
    Numbered ⟨op.apply r.index, jobs, r.events⟩ where
  issued := IndexOperation.issued_apply h.issued op
  given hx := Nat.le_trans (h.given hx) (IndexOperation.lastGeneration_le_apply r.index op)
  once := h.once
  latest {uri generation generation' x} hlive hx := by
    have hgiven := h.given hx
    rcases IndexOperation.generation?_apply r.index op uri with
      ⟨_, hnone | ⟨hnext, _⟩⟩ | ⟨_, hsame⟩
    · rw [hnone] at hlive
      cases hlive
    · rw [hnext] at hlive
      cases hlive
      exact Nat.le_succ_of_le hgiven
    · exact h.latest (hsame ▸ hlive) hx

theorem Numbered.replace {r : Record} (h : Numbered r) (jobs : List Correction) (uri : String)
    (text : List Char) (symbols : List SymbolDef) (scopes : FileScopes) (limit : Nat)
    {p : PublishedFile} {index : SymbolIndex}
    (hpublished : r.index.replaceFile uri text symbols scopes limit = (p, index)) :
    Numbered ⟨index, jobs, r.events ++ [.indexed uri p.generation p.extracted]⟩ := by
  have hclear := h.clear (.replace uri text symbols scopes limit) jobs
  rw [IndexOperation.apply, hpublished] at hclear
  obtain ⟨hgeneration, hlast, hlive⟩ := replaceFile_generation hpublished
  -- nothing was written down about the new generation before
  have hfresh : ∀ {u x}, .indexed u p.generation x ∈ r.events → False := by
    intro u x hx
    have hgiven := h.given hx
    omega
  refine ⟨hclear.issued, ?_, ?_, ?_⟩
  · intro u g x hx
    rcases List.mem_append.mp hx with hx | hx
    · exact hclear.given hx
    · cases List.mem_singleton.mp hx
      exact Nat.le_of_eq hlast.symm
  · intro u u' g x x' hx hx'
    rcases List.mem_append.mp hx with hx | hx
    · rcases List.mem_append.mp hx' with hx' | hx'
      · exact h.once hx hx'
      · cases List.mem_singleton.mp hx'
        exact (hfresh hx).elim
    · cases List.mem_singleton.mp hx
      rcases List.mem_append.mp hx' with hx' | hx'
      · exact (hfresh hx').elim
      · cases List.mem_singleton.mp hx'
        exact ⟨rfl, rfl⟩
  · intro u g g' x hg hx
    rcases List.mem_append.mp hx with hx | hx
    · exact hclear.latest hg hx
    · cases List.mem_singleton.mp hx
      rw [hlive, if_pos rfl] at hg
      cases hg
      exact Nat.le_refl _

theorem Numbered.retract {r : Record} (h : Numbered r) (jobs : List Correction) (uri : String)
    (place : Text.Extent) (names : List Name) (c : Correction) (keep : Name) :
    Numbered ⟨retractAll uri place names r.index, jobs, r.events ++ [.applied c keep]⟩ := by
  rw [retractAll_references]
  exact ⟨h.issued, fun hx => h.given (indexed_mem_applied.mp hx),
    fun hx hx' => h.once (indexed_mem_applied.mp hx) (indexed_mem_applied.mp hx'),
    fun hlive hx => h.latest hlive (indexed_mem_applied.mp hx)⟩

theorem Numbered.change {decides : Ambiguity → Decision → Prop} {r r' : Record} (h : Numbered r)
    (hchange : Change decides r r') : Numbered r' := by
  cases hchange with
  | arrange => exact ⟨h.issued, h.given, h.once, h.latest⟩
  | define _ uri symbols => exact h.clear (.define uri symbols) _
  | remove _ uri => exact h.clear (.remove uri) _
  | replace uri text symbols limit hpublished => exact h.replace _ uri text symbols _ limit hpublished
  | expire => exact ⟨h.issued, h.given, h.once, h.latest⟩
  | leave => exact ⟨h.issued, h.given, h.once, h.latest⟩
  | apply => exact h.retract _ _ _ _ _ _

/-- The file that was just published or removed has no indexing any more, the others keep
theirs. -/
theorem Current.of_clear {r : Record} (hn : Numbered r) {op : IndexOperation}
    {jobs : List Correction} {uri : String} {generation : Nat} {x : Extraction}
    (h : Current ⟨op.apply r.index, jobs, r.events⟩ uri generation x) :
    ¬op.Moves uri ∧ Current r uri generation x := by
  have hlive := h.live
  have hgiven := hn.given h.written
  rcases IndexOperation.generation?_apply r.index op uri with ⟨_, hnone | ⟨hnext, _⟩⟩ | ⟨hstill, hsame⟩
  · rw [hnone] at hlive
    cases hlive
  · rw [hnext] at hlive
    cases hlive
    exact absurd hgiven (Nat.not_succ_le_self _)
  · exact ⟨hstill, h.written, hsame ▸ hlive⟩

theorem Current.of_replace {r : Record} (hn : Numbered r) {jobs : List Correction} {uri u : String}
    {text : List Char} {symbols : List SymbolDef} {scopes : FileScopes} {limit : Nat}
    {p : PublishedFile} {index : SymbolIndex}
    (hpublished : r.index.replaceFile u text symbols scopes limit = (p, index))
    {generation : Nat} {x : Extraction}
    (h : Current ⟨index, jobs, r.events ++ [.indexed u p.generation p.extracted]⟩ uri generation x) :
    (u = uri ∧ generation = p.generation ∧ x = p.extracted) ∨
      u ≠ uri ∧ Current r uri generation x := by
  obtain ⟨hgeneration, _, hlive⟩ := replaceFile_generation hpublished
  have hcurrent : index.generation? uri = some generation := h.live
  rcases List.mem_append.mp h.written with hx | hx
  · right
    have hgiven := hn.given hx
    rw [hlive] at hcurrent
    split at hcurrent
    · cases hcurrent
      omega
    · rename_i hne
      exact ⟨hne, hx, hcurrent⟩
  · cases List.mem_singleton.mp hx
    exact .inl ⟨rfl, rfl, rfl⟩

theorem numbered_empty (jobs : List Correction) : Numbered ⟨{}, jobs, []⟩ where
  issued := issued_empty
  given hx := by cases hx
  once hx := by cases hx
  latest _ hx := by cases hx

end Record

end SqlAtlas
