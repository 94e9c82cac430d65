import SqlAtlas.Proofs.Pool.History

/-!
# Dispatch

Whenever a job comes in or a worker becomes free, all slots are offered a job. So no job ever waits
beside a worker that could take it.
-/

namespace SqlAtlas

set_option autoImplicit false

/-- A slot whose worker has nothing to do and has not been cut off. -/
def Slot.Free (s : Slot) : Prop := s.supervisor.state = .idle ∧ s.line ≠ .absent

namespace Pool

def Settled (p : Pool) : Prop := p.queue ≠ [] → ∀ s ∈ p.slots, ¬ s.Free

theorem settled_of_queue_nil {p : Pool} (h : p.queue = []) : p.Settled := fun hne => absurd h hne

theorem Settled.mono {p q : Pool} (h : p.Settled) (hqueue : q.queue ≠ [] → p.queue ≠ [])
    (hslots : ∀ s ∈ q.slots, s.Free → s ∈ p.slots) : q.Settled :=
  fun hne s hs hfree => h (hqueue hne) s (hslots s hs hfree) hfree

theorem queue_retire_subset (p : Pool) (i : Nat) : (p.retire i).queue ⊆ p.queue := by
  cases hslot : p.slots[i]? with
  | none => simp only [retire, hslot, List.Subset.refl]
  | some slot =>
    rw [retire_eq hslot]
    split
    · exact List.nil_subset _
    · exact List.Subset.refl _

theorem Settled.retire {p : Pool} (h : p.Settled) (i : Nat) : (p.retire i).Settled := by
  cases hslot : p.slots[i]? with
  | none => simpa only [Pool.retire, hslot] using h
  | some slot =>
    refine h.mono (fun hne hnil => hne (List.subset_nil.mp (hnil ▸ p.queue_retire_subset i))) ?_
    intro s hs hfree
    rw [slots_retire hslot] at hs
    rcases List.mem_or_eq_of_mem_set hs with hold | rfl
    · exact hold
    · exact absurd hfree.1 (by simp)

/-- An offer looks after one slot: if jobs are left, its worker is not free. -/
theorem offer_spec (p : Pool) (i : Nat) (hleft : (p.offer i).queue ≠ []) :
    (∀ s, (p.offer i).slots[i]? = some s → ¬ s.Free) ∧
      ∀ k, k ≠ i → (p.offer i).slots[k]? = p.slots[k]? := by
  rcases p.offer_cases i with ⟨hsame, hbusy⟩ | ⟨slot, hslot, -, ⟨hskip, hnil⟩ | ⟨job, rest, -, hoffer⟩⟩
  · rw [hsame]
    refine ⟨?_, fun _ _ => rfl⟩
    rintro s hs ⟨hidle, hline⟩
    rcases hbusy s hs with hstate | habsent
    · exact hstate hidle
    · exact hline habsent
  · rw [hskip] at hleft
    exact absurd hnil hleft
  · -- the slot is busy now, or has lost its worker
    have hset : ∃ s, (p.offer i).slots = p.slots.set i s ∧ s.supervisor.state ≠ .idle := by
      rcases hoffer with ⟨-, hgive⟩ | ⟨-, hretire⟩
      · exact ⟨_, congrArg Pool.slots hgive, by simp [Supervisor.dispatched]⟩
      · refine ⟨_, (congrArg Pool.slots hretire).trans (slots_retire (p := p.skip) hslot), by simp⟩
    obtain ⟨s, hslots, hstate⟩ := hset
    rw [hslots]
    constructor
    · intro t ht hfree
      obtain ⟨hi, -⟩ := List.getElem?_eq_some_iff.mp hslot
      rw [List.getElem?_set_self hi] at ht
      obtain rfl := Option.some.inj ht
      exact hstate hfree.1
    · intro k hk
      rw [List.getElem?_set_ne (Ne.symm hk)]

theorem queue_offer_subset (p : Pool) (i : Nat) : (p.offer i).queue ⊆ p.queue := by
  have hskip : p.skip.queue ⊆ p.queue := (List.dropWhile_suffix _).subset
  rcases p.offer_cases i with ⟨hsame, -⟩ | ⟨slot, -, -, ⟨hnone, -⟩ | ⟨job, rest, hqueue, hoffer⟩⟩
  · rw [hsame]
    exact List.Subset.refl _
  · rw [hnone]
    exact hskip
  · rcases hoffer with ⟨-, hgive⟩ | ⟨-, hretire⟩
    · rw [hgive]
      exact List.Subset.trans (List.subset_cons_self job rest) (hqueue ▸ hskip)
    · rw [hretire]
      exact List.Subset.trans (p.skip.queue_retire_subset i) hskip

/-- Offers to some slots, one after another: the jobs that are left have been offered to all. -/
theorem foldl_offer_spec (is : List Nat) (p : Pool) (hleft : (is.foldl offer p).queue ≠ []) :
    p.queue ≠ [] ∧ (∀ i ∈ is, ∀ s, (is.foldl offer p).slots[i]? = some s → ¬ s.Free) ∧
      ∀ k, k ∉ is → (is.foldl offer p).slots[k]? = p.slots[k]? := by
  induction is generalizing p with
  | nil => exact ⟨hleft, by simp, fun _ _ => rfl⟩
  | cons i is ih =>
    rw [List.foldl_cons] at hleft ⊢
    obtain ⟨hnext, hseen, hrest⟩ := ih (p.offer i) hleft
    obtain ⟨hthis, hothers⟩ := p.offer_spec i hnext
    refine ⟨?_, ?_, ?_⟩
    · intro hnil
      exact hnext (List.subset_nil.mp (hnil ▸ p.queue_offer_subset i))
    · intro k hk s hs
      by_cases hagain : k ∈ is
      · exact hseen k hagain s hs
      · obtain rfl := (List.mem_cons.mp hk).resolve_right hagain
        rw [hrest k hagain] at hs
        exact hthis s hs
    · intro k hk
      obtain ⟨hne, hnot⟩ := not_or.mp (mt List.mem_cons.mpr hk)
      rw [hrest k hnot, hothers k hne]

theorem settled_dispatch (p : Pool) : p.dispatch.Settled := by
  intro hleft s hs
  obtain ⟨-, hseen, hrest⟩ := foldl_offer_spec (List.range p.slots.length) p hleft
  obtain ⟨k, hk⟩ := List.mem_iff_getElem?.mp hs
  refine hseen k ?_ s hk
  apply Decidable.byContradiction
  intro hout
  rw [dispatch, hrest k hout, List.getElem?_eq_none (by simpa using hout)] at hk
  cases hk

theorem Settled.reply {p : Pool} (h : p.Settled) (id : Nat) (answer : Option Tree) :
    (p.reply id answer).Settled := by
  obtain ⟨answers, hreply⟩ := p.reply_eq id answer
  rw [hreply]
  exact h

theorem Settled.finish {p : Pool} (h : p.Settled) (w : Worker) (outcome : ParseOutcome) :
    (p.finish w outcome).Settled := by
  rw [Pool.finish]
  split
  · exact h
  · rename_i job _
    have hanswered := h.reply job.id outcome.tree?
    dsimp only
    split
    · exact hanswered
    · split
      · exact hanswered
      · exact settled_dispatch _

theorem Settled.reportLate {p : Pool} (h : p.Settled) (id : WorkerId) : (p.reportLate id).Settled := by
  have herased : { p with exits := p.exits.erase id }.Settled := h
  rw [Pool.reportLate]
  split
  · exact herased
  · exact herased.retire id.slot

theorem Settled.reportExit {p : Pool} (h : p.Settled) (id : WorkerId) : (p.reportExit id).Settled := by
  have herased : { p with exits := p.exits.erase id }.Settled := h
  rw [Pool.reportExit]
  split
  · exact herased
  · exact herased.retire id.slot

theorem Settled.respawn {p : Pool} (h : p.Settled) (r : Respawn) : (p.respawn r).Settled := by
  have herased : { p with respawns := p.respawns.erase r }.Settled := h
  rw [Pool.respawn]
  split
  · exact herased
  · rw [spawn]
    split
    · exact herased
    · exact settled_dispatch _

theorem Settled.disconnect {p : Pool} (h : p.Settled) (i : Nat) : (p.disconnect i).Settled := by
  rw [Pool.disconnect]
  split
  · exact h
  · rename_i slot hslot
    split
    · rename_i hfree
      -- its worker was free, so there was nothing to do
      refine settled_of_queue_nil ?_
      apply Decidable.byContradiction
      intro hne
      exact h hne slot (List.mem_of_getElem? hslot) ⟨hfree.1, by simp [hfree.2]⟩
    · exact h

theorem Settled.forget {p : Pool} (h : p.Settled) (id : Nat) : (p.forget id).Settled := by
  refine h.mono ?_ (fun s hs _ => hs)
  intro hne hnil
  exact hne (by simp [Pool.forget, hnil])

theorem Settled.enter {p : Pool} (h : p.Settled) (c : Call) :
    (p.enter c.text c.dialect c.timeout).2.Settled := by
  rw [Pool.enter]
  split
  · exact settled_dispatch _
  · exact h

theorem Settled.step {p : Pool} (h : p.Settled) (c : Call) : (c.step p).2.Settled := by
  rw [Call.step]
  split
  · split
    · exact h
    · split <;> exact h
  · split <;> exact h
  · have hentered := h.enter c
    split <;> rename_i hp <;> rw [hp] at hentered <;> exact hentered
  · split <;> exact h
  · exact h
  · exact h
  · exact h

theorem Settled.expire {p : Pool} (h : p.Settled) (c : Call) : (c.expire p).2.Settled := by
  rw [Call.expire]
  split
  · exact h.forget _
  · exact h

namespace Execution

theorem settled_turn {e : Execution} (h : e.pool.Settled) (i : Nat) {act : Call → Pool → Call × Pool}
    (hact : ∀ c, (act c e.pool).2.Settled) : (e.turn i act).pool.Settled := by
  rw [turn]
  split
  · exact h
  · exact hact _

theorem settled_move {e : Execution} (h : e.pool.Settled) (m : Move) : (e.move m).pool.Settled := by
  cases m with
  | submit | wait | age => exact h
  | proceed i => exact settled_turn h i h.step
  | expire i => exact settled_turn h i h.expire
  | parse n outcome =>
    rw [move]
    split
    · split <;> exact h
    · exact h
  | report n =>
    rw [move]
    split
    · exact h.finish _ _
    · exact h
  | hangUp n =>
    rw [move]
    split
    · simp only [Pool.hangUp]
      split <;> exact h
    · exact h
  | notice n =>
    rw [move]
    split
    · split <;> exact h
    · exact h
  | exit n =>
    rw [move]
    split
    · dsimp only
      split
      · exact h.reportLate _
      · exact h.reportExit _
    · exact h
  | respawn n =>
    rw [move]
    split
    · exact h.respawn _
    · exact h
  | disconnect i => exact h.disconnect i
  | close =>
    rw [move]
    split <;> exact h
  | drain =>
    rw [move]
    split
    · exact settled_of_queue_nil rfl
    · exact h

theorem settled_run (s : ParseSettings) (ms : List Move) : ((start s).run ms).pool.Settled := by
  have hstart : (start s).pool.Settled := settled_of_queue_nil (by simp [start, start_eq])
  rw [run]
  generalize start s = e at hstart
  induction ms generalizing e with
  | nil => exact hstart
  | cons m ms ih => exact ih _ (settled_move hstart m)

end Execution

end Pool

end SqlAtlas
