import SqlAtlas.Proofs.Index.Answers
import SqlAtlas.Proofs.Reference.Soundness
import SqlAtlas.Proofs.Workspace.Numbering

/-!
# Every correction is accounted for

At every moment, the references of a file that was indexed are those that were found in it, less
those that the applied corrections of that very generation have retracted. Every ambiguity that was
found in a file's current generation has a correction that has not ended, or one that was applied,
or a decision that keeps nothing. No correction is applied twice.
-/

namespace SqlAtlas

set_option autoImplicit false

open Workspace SymbolIndex

def Workspace.Event.retracts (uri : String) (generation : Nat) (ref : Reference) : Event → Bool
  | indexed .. => false
  | applied c keep =>
    decide (c.uri = uri ∧ c.generation = generation ∧ ref.place = c.ambiguity.place ∧
      ref.name ∈ retractedNames c.ambiguity.column keep c.ambiguity.provisional)

namespace Record

def applied (r : Record) : List Correction := r.events.filterMap fun e => e.applied?.map (·.1)

theorem mem_applied {r : Record} {c : Correction} :
    c ∈ r.applied ↔ ∃ keep, .applied c keep ∈ r.events := by
  rw [applied, List.mem_filterMap]
  constructor
  · rintro ⟨e, he, hc⟩
    cases e with
    | indexed uri generation x => cases hc
    | applied c' keep =>
      cases hc
      exact ⟨keep, he⟩
  · rintro ⟨keep, he⟩
    exact ⟨_, he, rfl⟩

/-! ### Corrections -/

/-- Every ambiguity of a file's current generation is accounted for, and the file has the references
that were found, less what the applied corrections have retracted. -/
structure Tracked (decides : Ambiguity → Decision → Prop) (r : Record) : Prop where
  consistent : Consistent r.index
  sound : ∀ {uri generation x}, .indexed uri generation x ∈ r.events → x.Sound uri
  source : ∀ c ∈ r.jobs ++ r.applied, ∃ x, .indexed c.uri c.generation x ∈ r.events ∧
    c.ambiguity ∈ x.ambiguities
  once : (r.jobs ++ r.applied).Nodup
  kept : ∀ {c keep}, .applied c keep ∈ r.events →
    keep ∈ c.ambiguity.provisional ∧ decides c.ambiguity (.accepted keep)
  settled : ∀ {uri generation x}, Current r uri generation x → ∀ a ∈ x.ambiguities,
    ⟨uri, generation, a⟩ ∈ r.jobs ∨ (∃ keep, .applied ⟨uri, generation, a⟩ keep ∈ r.events) ∨
      ∃ d, decides a d ∧ ∀ keep ∈ a.provisional, d ≠ .accepted keep
  content : ∀ {uri generation x}, Current r uri generation x → ∀ name,
    r.index.referencesTo uri name = x.references.filter fun ref =>
      decide (ref.name = name) && !r.events.any (·.retracts uri generation ref)

section

variable {decides : Ambiguity → Decision → Prop} {r : Record}

/-- The order of the corrections does not matter, and a correction may end if it is not the only
account of an ambiguity. -/
theorem Tracked.drop (h : Tracked decides r) (ended : List Correction) {jobs : List Correction}
    (hjobs : r.jobs.Perm (ended ++ jobs))
    (hended : ∀ {uri generation x}, Current r uri generation x → ∀ a ∈ x.ambiguities,
      ⟨uri, generation, a⟩ ∈ ended → ∃ d, decides a d ∧ ∀ keep ∈ a.provisional, d ≠ .accepted keep) :
    Tracked decides ⟨r.index, jobs, r.events⟩ where
  consistent := h.consistent
  sound := h.sound
  source c hc := by
    refine h.source c (List.mem_append.mpr ((List.mem_append.mp hc).imp_left fun hc => ?_))
    exact hjobs.mem_iff.mpr (List.mem_append_right _ hc)
  once := by
    have honce := (hjobs.append_right r.applied).nodup_iff.mp h.once
    rw [List.append_assoc] at honce
    exact (List.nodup_append.mp honce).2.1
  kept := h.kept
  settled {uri generation x} hcurrent a ha := by
    have hcurrent : Current r uri generation x := ⟨hcurrent.written, hcurrent.live⟩
    rcases h.settled hcurrent a ha with hjob | hrest
    · rcases List.mem_append.mp (hjobs.mem_iff.mp hjob) with hjob | hjob
      · exact .inr (.inr (hended hcurrent a ha hjob))
      · exact .inl hjob
    · exact .inr hrest
  content hcurrent := h.content ⟨hcurrent.written, hcurrent.live⟩

theorem Tracked.clear (h : Tracked decides r) (hn : Numbered r) {jobs : List Correction}
    (hjobs : r.jobs.Perm jobs) (op : IndexOperation)
    (hothers : ∀ uri name, ¬op.Moves uri →
      (op.apply r.index).referencesTo uri name = r.index.referencesTo uri name) :
    Tracked decides ⟨op.apply r.index, jobs, r.events⟩ := by
  have h := h.drop [] hjobs nofun
  refine ⟨h.consistent.apply op, h.sound, h.source, h.once, h.kept, ?_, ?_⟩
  · intro uri generation x hcurrent
    obtain ⟨_, hold⟩ := hcurrent.of_clear hn
    exact h.settled ⟨hold.written, hold.live⟩
  · intro uri generation x hcurrent name
    obtain ⟨hstill, hold⟩ := hcurrent.of_clear hn
    exact (hothers uri name hstill).trans (h.content ⟨hold.written, hold.live⟩ name)

theorem applied_append_indexed (index : SymbolIndex) (jobs : List Correction) (es : List Event)
    (uri : String) (generation : Nat) (x : Extraction) :
    applied ⟨index, jobs, es ++ [.indexed uri generation x]⟩ = applied ⟨index, jobs, es⟩ := by
  rw [applied, List.filterMap_append]
  exact List.append_nil _

theorem applied_append_applied (index : SymbolIndex) (jobs : List Correction) (es : List Event)
    (c : Correction) (keep : Name) :
    applied ⟨index, jobs, es ++ [.applied c keep]⟩ = applied ⟨index, jobs, es⟩ ++ [c] := by
  rw [applied, List.filterMap_append]
  rfl

/-- Nothing was retracted from a generation that is not given yet. -/
theorem Tracked.not_retracts (h : Tracked decides r) (hn : Numbered r) (generation : Nat)
    (hfresh : r.index.lastGeneration < generation) (uri : String) (ref : Reference) :
    r.events.any (·.retracts uri generation ref) = false := by
  rw [List.any_eq_false]
  intro e he hretracts
  cases e with
  | indexed u g x => cases hretracts
  | applied c keep =>
    obtain ⟨x, hx, _⟩ := h.source c (List.mem_append_right _ (mem_applied.mpr ⟨keep, he⟩))
    have hgiven := hn.given hx
    simp only [Event.retracts, decide_eq_true_eq] at hretracts
    omega

theorem Tracked.replace (h : Tracked decides r) (hn : Numbered r) {jobs : List Correction}
    (uri : String) (text : List Char) (symbols : List SymbolDef) (limit : Nat)
    {p : PublishedFile} {index : SymbolIndex}
    (hpublished : r.index.replaceFile uri text symbols (.ofText text) limit = (p, index))
    (hjobs : (p.extracted.ambiguities.map (Correction.mk uri p.generation) ++ r.jobs).Perm jobs) :
    Tracked decides ⟨index, jobs, r.events ++ [.indexed uri p.generation p.extracted]⟩ := by
  have hsound : p.extracted.Sound uri := by
    cases hpublished
    exact sound_extractReferences uri text _ limit
  have hreferences : ∀ u name, index.referencesTo u name =
      if uri = u then p.extracted.references.filter (·.name = name)
      else r.index.referencesTo u name := by
    cases hpublished
    intro u name
    exact h.consistent.referencesTo_replaceFile uri u text symbols _ limit name
  have hconsistent : Consistent index := by
    cases hpublished
    exact h.consistent.replace uri text symbols _ limit
  obtain ⟨hgeneration, _, _⟩ := replaceFile_generation hpublished
  have hunretracted := h.not_retracts hn p.generation (by omega)
  refine ⟨hconsistent, ?_, ?_, ?_, ?_, ?_, ?_⟩
  · intro u g x hx
    rcases List.mem_append.mp hx with hx | hx
    · exact h.sound hx
    · cases List.mem_singleton.mp hx
      exact hsound
  · intro c hc
    rw [applied_append_indexed] at hc
    have hc : c ∈ p.extracted.ambiguities.map (Correction.mk uri p.generation) ∨
        c ∈ r.jobs ++ r.applied := by
      rcases List.mem_append.mp hc with hc | hc
      · exact (List.mem_append.mp (hjobs.mem_iff.mpr hc)).imp_right (List.mem_append_left _)
      · exact .inr (List.mem_append_right _ hc)
    rcases hc with hc | hc
    · obtain ⟨a, ha, rfl⟩ := List.mem_map.mp hc
      exact ⟨p.extracted, by simp, ha⟩
    · obtain ⟨x, hx, ha⟩ := h.source c hc
      exact ⟨x, List.mem_append_left _ hx, ha⟩
  · rw [applied_append_indexed]
    refine (hjobs.append_right _).nodup_iff.mp ?_
    rw [List.append_assoc, List.nodup_append]
    refine ⟨?_, h.once, ?_⟩
    · refine List.Nodup.map ?_ (hsound.apart.imp fun hplace => ?_)
      · intro a b hab
        cases hab
        rfl
      · rintro rfl
        exact hplace rfl
    · intro c hc c' hc' hsame
      subst hsame
      obtain ⟨a, _, rfl⟩ := List.mem_map.mp hc
      obtain ⟨x, hx, _⟩ := h.source _ hc'
      have hgiven : p.generation ≤ r.index.lastGeneration := hn.given hx
      omega
  · intro c keep hc
    exact h.kept (by simpa using hc)
  · intro u g x hcurrent a ha
    rcases hcurrent.of_replace hn hpublished with ⟨rfl, rfl, rfl⟩ | ⟨hne, hold⟩
    · exact .inl (hjobs.mem_iff.mp (List.mem_append_left _ (List.mem_map_of_mem ha)))
    · rcases h.settled hold a ha with hjob | ⟨keep, hkeep⟩ | hd
      · exact .inl (hjobs.mem_iff.mp (List.mem_append_right _ hjob))
      · exact .inr (.inl ⟨keep, List.mem_append_left _ hkeep⟩)
      · exact .inr (.inr hd)
  · intro u g x hcurrent name
    change index.referencesTo u name = _
    rw [hreferences]
    rcases hcurrent.of_replace hn hpublished with ⟨rfl, rfl, rfl⟩ | ⟨hne, hold⟩
    · rw [if_pos rfl]
      simp only [List.any_append, hunretracted]
      simp [Event.retracts]
    · rw [if_neg hne, h.content hold]
      simp [Event.retracts]

theorem Tracked.retract (h : Tracked decides r) {jobs : List Correction} {c : Correction}
    {keep : Name} (hjobs : r.jobs.Perm (c :: jobs))
    (hcurrent : r.index.generation? c.uri = some c.generation)
    (hd : decides c.ambiguity (.accepted keep)) (hkeep : keep ∈ c.ambiguity.provisional) :
    Tracked decides ⟨retractAll c.uri c.ambiguity.place
      (retractedNames c.ambiguity.column keep c.ambiguity.provisional) r.index, jobs,
      r.events ++ [.applied c keep]⟩ := by
  have hbefore : ∀ {uri generation x}, Current ⟨retractAll c.uri c.ambiguity.place
      (retractedNames c.ambiguity.column keep c.ambiguity.provisional) r.index, jobs,
      r.events ++ [.applied c keep]⟩ uri generation x → Current r uri generation x := by
    intro uri generation x hx
    exact ⟨indexed_mem_applied.mp hx.written, (generation?_retractAll _ _ _ _ _).symm.trans hx.live⟩
  have hmoved : (r.jobs ++ r.applied).Perm (jobs ++ (r.applied ++ [c])) :=
    (hjobs.append_right _).trans (List.perm_middle.symm.trans
      ((List.perm_append_singleton c _).symm.append_left _))
  refine ⟨h.consistent.retractAll _ _ _, fun hx => h.sound (indexed_mem_applied.mp hx), ?_, ?_, ?_,
    ?_, ?_⟩
  · intro c' hc'
    rw [applied_append_applied] at hc'
    obtain ⟨x, hx, ha⟩ := h.source c' (hmoved.mem_iff.mpr hc')
    exact ⟨x, List.mem_append_left _ hx, ha⟩
  · rw [applied_append_applied]
    exact hmoved.nodup_iff.mp h.once
  · intro c' keep' hc'
    rcases List.mem_append.mp hc' with hc' | hc'
    · exact h.kept hc'
    · cases List.mem_singleton.mp hc'
      exact ⟨hkeep, hd⟩
  · intro uri generation x hx a ha
    rcases h.settled (hbefore hx) a ha with hjob | ⟨keep', hkeep'⟩ | hno
    · rcases List.mem_cons.mp (hjobs.mem_iff.mp hjob) with rfl | hjob
      · exact .inr (.inl ⟨keep, by simp⟩)
      · exact .inl hjob
    · exact .inr (.inl ⟨keep', List.mem_append_left _ hkeep'⟩)
    · exact .inr (.inr hno)
  · intro uri generation x hx name
    have hold := hbefore hx
    have hsplit : ∀ ref : Reference, (r.events ++ [Event.applied c keep]).any
        (·.retracts uri generation ref) = (r.events.any (·.retracts uri generation ref) ||
          Event.retracts uri generation ref (.applied c keep)) := by
      intro ref
      rw [List.any_append, List.any_cons, List.any_nil, Bool.or_false]
    rw [referencesTo_retractAll, h.content hold]
    simp only [hsplit]
    -- the new event retracts at one file and one place, and only some names
    split
    · rename_i hhere
      have hgeneration : c.generation = generation := by
        have hlive := hold.live
        rw [← hhere.1, hcurrent] at hlive
        exact Option.some.inj hlive
      rw [List.filter_filter]
      apply List.filter_congr
      intro ref _
      by_cases hname : ref.name = name
      · simp [Event.retracts, hhere.1, hgeneration, hname, hhere.2, Bool.and_comm]
      · simp [hname]
    · rename_i hother
      apply List.filter_congr
      intro ref _
      by_cases hname : ref.name = name
      · have hout : Event.retracts uri generation ref (.applied c keep) = false := by
          rw [Event.retracts, decide_eq_false_iff_not]
          rintro ⟨huri, _, _, hmem⟩
          exact hother ⟨huri, hname ▸ hmem⟩
        rw [hout, Bool.or_false]
      · simp [hname]

theorem Tracked.change {r' : Record} (h : Tracked decides r) (hn : Numbered r)
    (hchange : Change decides r r') : Tracked decides r' := by
  cases hchange with
  | arrange hjobs => exact h.drop [] hjobs nofun
  | define hjobs uri symbols =>
    refine h.clear hn hjobs (.define uri symbols) fun u name hstill => ?_
    exact (h.consistent.referencesTo_publishDefinitions uri u symbols name).trans (if_neg hstill)
  | remove hjobs uri =>
    refine h.clear hn hjobs (.remove uri) fun u name hstill => ?_
    exact (h.consistent.referencesTo_removeFile uri u name).trans (if_neg hstill)
  | replace uri text symbols limit hpublished hjobs =>
    exact h.replace hn uri text symbols limit hpublished hjobs
  | @expire jobs c hjobs hstale =>
    refine h.drop [c] hjobs fun {uri generation x} hcurrent a _ hjob => ?_
    rw [← List.mem_singleton.mp hjob] at hstale
    exact absurd hcurrent.live hstale
  | @leave jobs c d hjobs hd hno =>
    refine h.drop [c] hjobs fun {uri generation x} hcurrent a _ hjob => ?_
    rw [← List.mem_singleton.mp hjob] at hd hno
    exact ⟨d, hd, hno⟩
  | apply hjobs hcurrent hd hkeep => exact h.retract hjobs hcurrent hd hkeep

end

theorem tracked_empty (decides : Ambiguity → Decision → Prop) : Tracked decides ⟨{}, [], []⟩ where
  consistent := consistent_empty
  sound hx := by cases hx
  source c hc := by cases hc
  once := List.nodup_nil
  kept hx := by cases hx
  settled hx := by cases hx.written
  content hx := by cases hx.written

end Record

/-! ### What is left of an extraction -/

namespace Record

variable {decides : Ambiguity → Decision → Prop} {r : Record}

/-- A reference of a file's current generation was taken out exactly if it is provisional, and a
correction was applied there that kept another one. -/
theorem Tracked.retracts_iff (h : Tracked decides r) (hn : Numbered r) {uri : String}
    {generation : Nat} {x : Extraction} (hcurrent : Current r uri generation x) {ref : Reference}
    (href : ref ∈ x.references) : r.events.any (·.retracts uri generation ref) = true ↔
      ∃ a ∈ x.ambiguities, ∃ keep, .applied ⟨uri, generation, a⟩ keep ∈ r.events ∧
        ref ∈ a.provisionalReferences uri ∧ ref.name ≠ Name.qualified keep a.column := by
  have hsound := h.sound hcurrent.written
  rw [List.any_eq_true]
  constructor
  · rintro ⟨e, he, hretracts⟩
    cases e with
    | indexed u g y => cases hretracts
    | applied c keep =>
      obtain ⟨u, g, a⟩ := c
      rw [Event.retracts, decide_eq_true_eq] at hretracts
      obtain ⟨rfl, rfl, hplace, hname⟩ := hretracts
      obtain ⟨y, hy, ha⟩ := h.source _ (List.mem_append_right _ (mem_applied.mpr ⟨keep, he⟩))
      obtain ⟨_, rfl⟩ := hn.once hy hcurrent.written
      obtain ⟨table, htable, hname⟩ := List.mem_map.mp hname
      obtain ⟨htable, hother⟩ := List.mem_filter.mp htable
      have hkind := hsound.column a ha ref href hplace ⟨table, htable, hname.symm⟩
      refine ⟨a, ha, keep, he, Ambiguity.mem_provisionalReferences.mpr ⟨table, htable, ?_⟩, ?_⟩
      · have huri := hsound.home ref href
        cases ref
        simp only at hplace hname hkind huri
        rw [hplace, hname, hkind, huri]
      · intro hkept
        have hsame := Name.qualified_left_injective (hname.trans hkept)
        simp [hsame] at hother
  · rintro ⟨a, ha, keep, he, hprovisional, hother⟩
    refine ⟨_, he, ?_⟩
    obtain ⟨table, htable, rfl⟩ := Ambiguity.mem_provisionalReferences.mp hprovisional
    rw [Event.retracts, decide_eq_true_eq]
    refine ⟨rfl, rfl, rfl, List.mem_map.mpr ⟨table, List.mem_filter.mpr ⟨htable, ?_⟩, rfl⟩⟩
    have hne : table ≠ keep := by
      rintro rfl
      exact hother rfl
    simpa using hne

theorem Tracked.mem_referencesInFile (h : Tracked decides r) {uri : String} {generation : Nat}
    {x : Extraction} (hcurrent : Current r uri generation x) {ref : Reference} :
    ref ∈ r.index.referencesInFile uri ↔
      ref ∈ x.references ∧ r.events.any (·.retracts uri generation ref) = false := by
  rw [h.consistent.mem_referencesInFile, h.content hcurrent, List.mem_filter]
  simp

/-- A correction is applied at most once. -/
theorem Tracked.kept_unique (h : Tracked decides r) {c : Correction} {keep keep' : Name}
    (hkeep : .applied c keep ∈ r.events) (hkeep' : .applied c keep' ∈ r.events) : keep = keep' := by
  have honce : r.applied.Nodup := (List.nodup_append.mp h.once).2.1
  cases Arrangement.eq_of_nodup_filterMap honce hkeep hkeep' rfl rfl
  rfl

end Record

namespace Execution

/-- In every execution, all corrections are accounted for. -/
theorem Reachable.accounted {answers : Answers} {settings : Settings} {w : Workspace}
    (hw : ofSettings settings = .ok w) {callers : List (List Operation)} {e : Execution}
    (h : Reachable answers (ofCallers w callers) e) :
    e.record.Numbered ∧ e.record.Tracked (Decides answers settings) := by
  apply h.record_induction (sincere_ofCallers answers hw callers)
    (P := fun r => r.Numbered ∧ r.Tracked (Decides answers settings))
  · rw [(record_ofCallers hw callers).2.2]
    exact ⟨Record.numbered_empty [], Record.tracked_empty _⟩
  · intro r r' hchange ⟨hn, ht⟩
    exact ⟨hn.change hchange, ht.change hn hchange⟩

end Execution

end SqlAtlas
