import SqlAtlas.Proofs.Pool.Execution

/-!
# What the steps of a pool bring in

A step of a pool moves jobs between the queue and the workers, and drops some. Only a caller that
enters a job brings a new one in, and only a worker that has finished its job sends a tree to a
caller. Every other step keeps to the jobs, the answers and the cached entries that were there.
-/

namespace SqlAtlas.Pool

set_option autoImplicit false

def Holds (p : Pool) (j : Job) : Prop := j ∈ p.queue ∨ ∃ w ∈ p.workers, w.job = some j

/-- The pool `q` holds no job, answer or cached entry but those of `p`, apart from answers without a
tree. -/
structure Keeps (p q : Pool) : Prop where
  nextJob : q.nextJob = p.nextJob
  jobs : ∀ j, q.Holds j → p.Holds j
  answers : ∀ id tree, q.answers.get? id = some (some tree) → p.answers.get? id = some (some tree)
  cached : q.cache.entries ⊆ p.cache.entries

theorem Keeps.refl (p : Pool) : p.Keeps p where
  nextJob := rfl
  jobs _ h := h
  answers _ _ h := h
  cached _ h := h

theorem Keeps.trans {p q r : Pool} (h : p.Keeps q) (h' : q.Keeps r) : p.Keeps r where
  nextJob := h'.nextJob.trans h.nextJob
  jobs j hj := h.jobs j (h'.jobs j hj)
  answers id tree ha := h.answers id tree (h'.answers id tree ha)
  cached := List.Subset.trans h'.cached h.cached

/-- Slots, clocks and counts do not matter, and neither do workers without a job. -/
theorem Keeps.of_parts {p q : Pool} (hnext : q.nextJob = p.nextJob) (hqueue : q.queue ⊆ p.queue)
    (hworkers : ∀ w ∈ q.workers, w.job = none ∨ w ∈ p.workers) (hanswers : q.answers = p.answers)
    (hcache : q.cache = p.cache) : p.Keeps q where
  nextJob := hnext
  jobs j h := by
    rcases h with hj | ⟨w, hw, hj⟩
    · exact .inl (hqueue hj)
    · rcases hworkers w hw with hnone | hold
      · rw [hnone] at hj
        cases hj
      · exact .inr ⟨w, hold, hj⟩
  answers id tree h := by rwa [hanswers] at h
  cached := by rw [hcache]; exact List.Subset.refl _

theorem Keeps.foldl {α : Type} {f : Pool → α → Pool} (hf : ∀ (p : Pool) a, p.Keeps (f p a))
    (as : List α) (p : Pool) : p.Keeps (as.foldl f p) := by
  induction as generalizing p with
  | nil => exact .refl p
  | cons a as ih => exact (hf p a).trans (ih (f p a))

theorem keeps_cache (p : Pool) {cache : TtlCache String (Option Tree)}
    (h : cache.entries ⊆ p.cache.entries) : p.Keeps { p with cache := cache } where
  nextJob := rfl
  jobs _ h := h
  answers _ _ h := h
  cached := h

/-! ### Answers -/

theorem workers_reply (p : Pool) (id : Nat) (answer : Option Tree) :
    (p.reply id answer).workers = p.workers := by
  rw [reply]
  split <;> rfl

theorem get?_foldl_insert_none (ids : List Nat) {d : Dict Nat (Option Tree)} {id : Nat} {tree : Tree}
    (h : (ids.foldl (fun a id => a.insert id none) d).get? id = some (some tree)) :
    d.get? id = some (some tree) := by
  induction ids generalizing d with
  | nil => exact h
  | cons i ids ih =>
    have hd := ih h
    rw [Dict.get?_insert] at hd
    split at hd
    · cases hd
    · exact hd

theorem keeps_abandon (p : Pool) : p.Keeps p.abandon where
  nextJob := rfl
  jobs j h := by
    rcases h with h | h
    · cases h
    · exact .inr h
  answers _ _ h := get?_foldl_insert_none p.waiters h
  cached _ h := h

theorem keeps_erase_answer (p : Pool) (id : Nat) :
    p.Keeps { p with answers := p.answers.erase id } where
  nextJob := rfl
  jobs _ h := h
  answers id' tree h := by
    rw [Dict.get?_erase] at h
    split at h
    · cases h
    · exact h
  cached _ h := h

theorem keeps_forget (p : Pool) (id : Nat) : p.Keeps (p.forget id) :=
  (p.keeps_erase_answer id).trans
    (.of_parts rfl List.filter_sublist.subset (fun _ h => .inr h) rfl rfl)

/-! ### Slots -/

theorem keeps_retire (p : Pool) (i : Nat) : p.Keeps (p.retire i) := by
  rw [retire]
  split
  · exact .refl p
  · rename_i slot hslot
    split
    rename_i decision supervisor hexit
    have hretired : p.Keeps { p with slots := p.slots.set i ⟨supervisor, .absent, slot.epoch + 1⟩ } :=
      .of_parts rfl (fun _ h => h) (fun _ h => .inr h) rfl rfl
    cases decision with
    | respawn delay =>
      exact hretired.trans (.of_parts rfl (fun _ h => h) (fun _ h => .inr h) rfl rfl)
    | giveUp =>
      dsimp only
      split
      · exact hretired
      · exact hretired.trans (keeps_abandon _)

theorem holds_hand {p : Pool} {id : WorkerId} {job j : Job} (h : (p.hand id job).Holds j) :
    p.Holds j ∨ j = job := by
  rcases h with hj | ⟨w, hw, hj⟩
  · exact .inl (.inl hj)
  · obtain ⟨v, hv, rfl⟩ := List.mem_map.mp hw
    split at hj
    · exact .inr (Option.some.inj hj).symm
    · exact .inl (.inr ⟨v, hv, hj⟩)

theorem keeps_offer (p : Pool) (i : Nat) : p.Keeps (p.offer i) := by
  rw [offer]
  split
  · exact .refl p
  · rename_i slot hslot
    split
    · exact .refl p
    · split
      · exact .of_parts rfl (List.nil_subset _) (fun _ h => .inr h) rfl rfl
      · rename_i job rest hqueue
        have hsub : job :: rest ⊆ p.queue := by
          rw [← hqueue]
          exact (List.dropWhile_sublist _).subset
        dsimp only
        split
        · refine ⟨rfl, ?_, fun _ _ h => h, fun _ h => h⟩
          intro j hj
          rcases holds_hand hj with hold | rfl
          · exact hold.imp_left fun h => hsub (List.mem_cons_of_mem job h)
          · exact .inl (hsub List.mem_cons_self)
        · refine Keeps.trans ?_ (keeps_retire _ i)
          exact .of_parts rfl hsub (fun _ h => .inr h) rfl rfl

theorem keeps_dispatch (p : Pool) : p.Keeps p.dispatch := Keeps.foldl keeps_offer _ p

theorem keeps_spawn (p : Pool) (i : Nat) : p.Keeps (p.spawn i) := by
  rw [spawn]
  split
  · exact .refl p
  · dsimp only
    refine Keeps.trans ?_ (keeps_dispatch _)
    refine .of_parts rfl (fun _ h => h) ?_ rfl rfl
    intro w hw
    rcases List.mem_append.mp hw with hold | hnew
    · exact .inr hold
    · rw [List.mem_singleton.mp hnew]
      exact .inl rfl

/-! ### Workers -/

theorem keeps_leave (p : Pool) (id : WorkerId) : p.Keeps (p.leave id) :=
  .of_parts rfl (fun _ h => h) (fun _ h => .inr (List.filter_sublist.subset h)) rfl rfl

/-- A worker that is done sends its answer, and the rest of what it does keeps to what is there. -/
theorem keeps_finish (p : Pool) (id : WorkerId) (job : Job) (outcome : ParseOutcome) :
    (p.reply job.id outcome.tree?).Keeps (p.finish ⟨id, some job⟩ outcome) := by
  rw [finish]
  dsimp only
  split
  · exact keeps_leave _ id
  · split
    · exact keeps_leave _ id
    · refine Keeps.trans ?_ (keeps_dispatch _)
      refine .of_parts rfl (fun _ h => h) ?_ rfl rfl
      intro w hw
      obtain ⟨v, hv, rfl⟩ := List.mem_map.mp hw
      split
      · exact .inl rfl
      · exact .inr (workers_reply p job.id outcome.tree? ▸ hv)

theorem keeps_hangUp (p : Pool) (w : Worker) : p.Keeps (p.hangUp w) := by
  rw [hangUp]
  split
  · exact p.keeps_leave w.id
  · exact .refl p

theorem keeps_erase_exit (p : Pool) (id : WorkerId) : p.Keeps { p with exits := p.exits.erase id } :=
  .of_parts rfl (fun _ h => h) (fun _ h => .inr h) rfl rfl

theorem keeps_reportLate (p : Pool) (id : WorkerId) : p.Keeps (p.reportLate id) := by
  rw [reportLate]
  split
  · exact p.keeps_erase_exit id
  · exact (p.keeps_erase_exit id).trans (keeps_retire _ id.slot)

theorem keeps_reportExit (p : Pool) (id : WorkerId) : p.Keeps (p.reportExit id) := by
  cases hflag : p.isShutdown with
  | false =>
    rw [reportExit_of_open hflag]
    exact p.keeps_reportLate id
  | true =>
    rw [reportExit, if_pos (by rw [hflag, Bool.true_or])]
    exact p.keeps_erase_exit id

theorem keeps_respawn (p : Pool) (r : Respawn) : p.Keeps (p.respawn r) := by
  have hdue : p.Keeps { p with respawns := p.respawns.erase r } :=
    .of_parts rfl (fun _ h => h) (fun _ h => .inr h) rfl rfl
  rw [respawn]
  split
  · exact hdue
  · exact hdue.trans (keeps_spawn _ r.slot)

theorem keeps_disconnect (p : Pool) (i : Nat) : p.Keeps (p.disconnect i) := by
  rw [disconnect]
  split
  · exact .refl p
  · split
    · exact .of_parts rfl (fun _ h => h) (fun _ h => .inr (List.filter_sublist.subset h)) rfl rfl
    · exact .refl p

theorem keeps_drain (p : Pool) : p.Keeps p.drain := by
  refine Keeps.trans ?_ (keeps_abandon _)
  exact .of_parts rfl (fun _ h => h) (fun _ h => .inr h) rfl rfl

end SqlAtlas.Pool
