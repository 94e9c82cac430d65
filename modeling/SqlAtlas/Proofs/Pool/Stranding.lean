import SqlAtlas.Proofs.Pool.Staff

/-!
# Callers of a dead pool

A pool is dead when it was closed and has given up its jobs, or when every slot was given up and none
is live. It dies only with all its jobs given up, so that everyone who is registered by then gets an
answer. But a caller checks the pool in one step and enters its job in another. When the pool dies in
between, the job goes into the queue of a dead pool and nobody answers it. The number of such a caller
is late, and so is that of a caller who fails on a dead pool.
-/

namespace SqlAtlas

set_option autoImplicit false

namespace Pool.History

open Execution (Move)

variable {limit : Nat} {h h' : History}

/-! ### How a pool dies -/

theorem Staffed.alive (hs : Staffed limit h) {i : Nat} {slot : Slot}
    (hslot : h.pool.slots[i]? = some slot)
    (hup : slot.supervisor.isLive = true ∧ slot.line ≠ .absent) : h.isDead = false := by
  rw [Execution.isDead, (hs.wired i slot hslot).not_drained hup.2, Bool.false_or]
  exact isExhausted_eq_false (List.mem_of_getElem? hslot) (.inr hup.1)

/-- A slot whose worker can be reached before and after a change. -/
theorem Staffed.stays_alive (hs : Staffed limit h) (hs' : Staffed limit h') {i : Nat} {slot slot' : Slot}
    (hslot : h.pool.slots[i]? = some slot) (hslots : h'.pool.slots = h.pool.slots.set i slot')
    (hup : slot.supervisor.isLive = true ∧ slot.line ≠ .absent)
    (hup' : slot'.supervisor.isLive = true ∧ slot'.line ≠ .absent) : h'.isDead = h.isDead := by
  obtain ⟨hi, -⟩ := List.getElem?_eq_some_iff.mp hslot
  have hslot' : h'.pool.slots[i]? = some slot' := by rw [hslots, List.getElem?_set_self hi]
  rw [hs.alive hslot hup, hs'.alive hslot' hup']

/-- A pool dies only by giving up all its jobs, and stays dead. -/
theorem isDead_change (hs : Staffed limit h) (hchange : Change h h') :
    h'.isDead = h.isDead ∨ h'.isDead = true ∧ h'.pool.queue = [] ∧ h'.pool.waiters = [] := by
  have hs' := hs.change hchange
  cases hchange with
  | pass | skip | enlist | breakOff | forget | parse | hangUp | heed | cancel => exact .inl rfl
  | give hslot hidle hline _ =>
    refine .inl (hs.stays_alive hs' hslot rfl ?_ ?_)
    · simp [Supervisor.isLive, hidle, hline]
    · simp [Supervisor.isLive, Supervisor.dispatched, hline]
  | retire hslot hgone =>
    have hbefore := hs.alive hslot (hs.live_of_gone hslot hgone)
    obtain ⟨hopen, -⟩ := Bool.or_eq_false_iff.mp hbefore
    rw [retire_eq hslot]
    split
    · rename_i hout
      exact .inr ⟨Bool.or_eq_true_iff.mpr (.inr hout), rfl, rfl⟩
    · rename_i hleft
      have hafter := Bool.or_eq_false_iff.mpr ⟨hopen, Bool.eq_false_iff.mpr hleft⟩
      exact .inl (hafter.trans hbefore.symm)
  | @answer _ p slot hp hslot _ =>
    have hworker := hs.reporting p (List.mem_of_getElem? hp)
    obtain ⟨hline, hbusy⟩ := hs.busy hworker hslot
    obtain ⟨answers, hreply⟩ := h.pool.reply_eq p.job.id p.outcome.tree?
    refine .inl (hs.stays_alive hs' (slotOf?_eq_some.mp hslot).1 (by rw [hreply]; rfl) ?_ ?_)
    · simp [Supervisor.isLive, hbusy, hline]
    · simp [Supervisor.isLive, Supervisor.succeeded, hbusy, hline]
  | fail _ _ =>
    obtain ⟨answers, hreply⟩ := h.pool.reply_eq _ _
    rw [hreply]
    exact .inl rfl
  | @respawn r slot hr hopen hslot =>
    obtain ⟨hi, -⟩ := List.getElem?_eq_some_iff.mp hslot
    have hspare := ((hs.wired r.slot slot hslot).exited_of_due hr rfl).2
    have hbefore : h.isDead = false := by
      rw [Execution.isDead, Execution.isDrained, hopen, Bool.false_and, Bool.false_or]
      exact isExhausted_eq_false (List.mem_of_getElem? hslot) (.inl hspare)
    have hafter := hs'.alive (List.getElem?_set_self hi) ⟨rfl, by simp⟩
    exact .inl (hafter.trans hbefore.symm)
  | disconnect hslot hidle hline =>
    refine .inl (hs.stays_alive hs' hslot rfl ?_ ?_)
    · simp [Supervisor.isLive, hidle, hline]
    · simp [Supervisor.isLive, hidle]
  | close hopen =>
    refine .inl ?_
    rw [Execution.isDead, Execution.isDead, Execution.isDrained, Execution.isDrained, hopen]
    rfl
  | drain hclosing =>
    refine .inr ⟨?_, rfl, rfl⟩
    have hflag := hs.closing hclosing
    simp [Execution.isDead, Execution.isDrained, Pool.drain, Pool.abandon, hflag]

theorem isDead_of_change (hs : Staffed limit h) (hdead : h.isDead = true) (hchange : Change h h') :
    h'.isDead = true := by
  rcases isDead_change hs hchange with hsame | ⟨hdead', -⟩
  · rw [hsame, hdead]
  · exact hdead'

/-! ### Late jobs -/

/-- Jobs and waiting callers only become fewer, but for the one that gets a new number. -/
theorem jobs_change (hchange : Change h h') :
    (h'.pool.queue ⊆ h.pool.queue ∧ h'.pool.waiters ⊆ h.pool.waiters ∧ h'.late = h.late) ∨
    (∀ j ∈ h'.pool.queue, j ∈ h.pool.queue ∨ j.id = h.pool.nextJob) ∧
      h'.pool.waiters = h.pool.waiters ++ [h.pool.nextJob] ∧
      h'.late = if h.isDead then h.late ++ [h.pool.nextJob] else h.late := by
  have hrefl {α : Type} (l : List α) : l ⊆ l := List.Subset.refl l
  cases hchange with
  | pass | parse | hangUp | heed | respawn | cancel | disconnect | close =>
    exact .inl ⟨hrefl _, hrefl _, rfl⟩
  | skip => exact .inl ⟨(List.dropWhile_suffix _).subset, hrefl _, rfl⟩
  | give _ _ _ hqueue =>
    exact .inl ⟨hqueue ▸ List.subset_cons_self _ _, hrefl _, rfl⟩
  | retire hslot _ =>
    rw [retire_eq hslot]
    split
    · exact .inl ⟨List.nil_subset _, List.nil_subset _, rfl⟩
    · exact .inl ⟨hrefl _, hrefl _, rfl⟩
  | enlist hid =>
    refine .inr ⟨?_, rfl, rfl⟩
    intro j hj
    refine (List.mem_append.mp hj).imp_right fun hnew => ?_
    rw [List.mem_singleton.mp hnew, hid]
  | breakOff => exact .inr ⟨fun _ hj => .inl hj, rfl, rfl⟩
  | forget id => exact .inl ⟨List.filter_sublist.subset, List.filter_sublist.subset, rfl⟩
  | answer _ _ _ | fail _ _ =>
    obtain ⟨answers, hreply⟩ := h.pool.reply_eq _ _
    rw [hreply]
    exact .inl ⟨hrefl _, List.filter_sublist.subset, rfl⟩
  | drain _ => exact .inl ⟨List.nil_subset _, List.nil_subset _, rfl⟩

/-- What a dead pool has in its queue, and whoever waits for it, came too late. -/
def OnlyLate (h : History) : Prop :=
  h.isDead = true → (∀ j ∈ h.pool.queue, j.id ∈ h.late) ∧ h.pool.waiters ⊆ h.late

theorem OnlyLate.change (hl : OnlyLate h) (hs : Staffed limit h) (hchange : Change h h') :
    OnlyLate h' := by
  intro hdead'
  rcases isDead_change hs hchange with hsame | ⟨-, hqueue, hwaiters⟩
  · have hdead : h.isDead = true := hsame ▸ hdead'
    obtain ⟨hqueue, hwaiters⟩ := hl hdead
    rcases jobs_change hchange with ⟨hfewer, hleft, hlate⟩ | ⟨hmore, hone, hlate⟩
    · rw [hlate]
      exact ⟨fun j hj => hqueue j (hfewer hj), List.Subset.trans hleft hwaiters⟩
    · rw [hlate, if_pos hdead, hone]
      have hlast : h.pool.nextJob ∈ h.late ++ [h.pool.nextJob] :=
        List.mem_append_right _ (List.mem_singleton.mpr rfl)
      constructor
      · intro j hj
        rcases hmore j hj with hold | hnew
        · exact List.mem_append_left _ (hqueue j hold)
        · exact hnew ▸ hlast
      · exact List.append_subset.mpr
          ⟨List.subset_append_of_subset_left _ hwaiters, List.subset_append_right _ _⟩
  · rw [hqueue, hwaiters]
    exact ⟨fun _ hj => absurd hj List.not_mem_nil, List.nil_subset _⟩

theorem onlyLate_run (s : ParseSettings) (ms : List Move) : OnlyLate ((start s).run ms) := by
  have hstart : Staffed s.restart.maxFailures (start s) ∧ OnlyLate (start s) := by
    refine ⟨staffed_start s, fun _ => ?_⟩
    simp [start, Execution.start, start_eq]
  have hrun := run_induction
    (P := fun h => Staffed s.restart.maxFailures h ∧ OnlyLate h)
    (fun hboth hchange => ⟨hboth.1.change hchange, hboth.2.change hboth.1 hchange⟩) hstart ms
  exact hrun.2

/-! ### Callers that have checked -/

theorem not_ready_of_dead (hdead : h.isDead = true) :
    (h.pool.isShutdown || !h.pool.isReady) = true := by
  rcases Bool.or_eq_true_iff.mp hdead with hdrained | hout
  · rw [(Bool.and_eq_true_iff.mp hdrained).1, Bool.true_or]
  · have hnone : h.pool.isReady = false := by
      rw [isReady, List.any_eq_false]
      intro s hs hlive
      have hgone := (Bool.and_eq_true_iff.mp (List.all_eq_true.mp hout s hs)).2
      rw [hlive] at hgone
      cases hgone
    rw [hnone, Bool.not_false, Bool.or_true]

/-- A dead pool turns away whoever checks it. -/
theorem step_of_dead (hdead : h.isDead = true) {c : Call} (hc : c.isEntering = false) :
    (c.step h.pool).1.isEntering = false := by
  rw [Call.step]
  split
  · split
    · rfl
    · split <;> rfl
  · rw [if_pos (not_ready_of_dead hdead)]
    rfl
  · rename_i hstage
    rw [Call.isEntering, hstage] at hc
    cases hc
  · split
    · rfl
    · exact hc
  · rfl
  · exact hc
  · exact hc

theorem expire_isEntering {c : Call} (hc : c.isEntering = false) (p : Pool) :
    (c.expire p).1.isEntering = false := by
  rw [Call.expire]
  split
  · rfl
  · exact hc

theorem calls_turn {e : Execution} (hnone : ∀ c ∈ e.calls, c.isEntering = false) (i : Nat)
    {act : Call → Pool → Call × Pool}
    (hact : ∀ c, c.isEntering = false → (act c e.pool).1.isEntering = false) :
    ∀ c ∈ (e.turn i act).calls, c.isEntering = false := by
  rw [Execution.turn]
  split
  · exact hnone
  · rename_i c hc
    intro d hd
    rcases List.mem_or_eq_of_mem_set hd with hold | rfl
    · exact hnone d hold
    · exact hact c (hnone c (List.mem_of_getElem? hc))

theorem calls_move (hdead : h.isDead = true) (hnone : ∀ c ∈ h.calls, c.isEntering = false) (m : Move) :
    ∀ c ∈ (h.move m).calls, c.isEntering = false := by
  change ∀ c ∈ (h.toExecution.move m).calls, c.isEntering = false
  cases m with
  | submit text dialect timeout =>
    intro c hc
    rcases List.mem_append.mp hc with hold | hnew
    · exact hnone c hold
    · rw [List.mem_singleton.mp hnew]
      rfl
  | proceed i => exact calls_turn hnone i fun c hc => step_of_dead hdead hc
  | expire i => exact calls_turn hnone i fun c hc => expire_isEntering hc _
  | disconnect | wait | age => exact hnone
  | parse | report | hangUp | notice | exit | respawn | close | drain =>
    rw [Execution.move]
    repeat' split
    all_goals exact hnone

theorem entrant?_eq_none (hnone : ∀ c ∈ h.calls, c.isEntering = false) (m : Move) :
    h.entrant? m = none := by
  cases m with
  | proceed i =>
    rw [Execution.entrant?, Option.filter_eq_none_iff]
    intro c hc
    rw [hnone c (List.mem_of_getElem? hc)]
    exact Bool.false_ne_true
  | _ => rfl

/-- When nobody is left between the check and the queue, a dead pool gives out no more numbers. -/
theorem late_run (hs : Staffed limit h) (hdead : h.isDead = true)
    (hnone : ∀ c ∈ h.calls, c.isEntering = false) (ms : List Move) :
    (h.run ms).isDead = true ∧ (h.run ms).late = h.late := by
  induction ms generalizing h with
  | nil => exact ⟨hdead, rfl⟩
  | cons m ms ih =>
    have hmove : Staffed limit (h.move m) ∧ (h.move m).isDead = true :=
      run_induction (P := fun g => Staffed limit g ∧ g.isDead = true)
        (fun hboth hc => ⟨hboth.1.change hc, isDead_of_change hboth.1 hboth.2 hc⟩) ⟨hs, hdead⟩ [m]
    obtain ⟨hlater, hlate⟩ := ih hmove.1 hmove.2 (calls_move hdead hnone m)
    refine ⟨hlater, hlate.trans ?_⟩
    simp [move, Execution.number?, entrant?_eq_none hnone m]

/-- A dead pool strands only those who have entered their jobs after it died, and once no caller is
between the check and the queue, there will be no more of them. -/
theorem stranded_entered_late (s : ParseSettings) (ms : List Move)
    (hdead : ((start s).run ms).isDead = true) :
    let h := (start s).run ms
    (∀ j ∈ h.pool.queue, j.id ∈ h.late) ∧ (∀ id ∈ h.pool.waiters, id ∈ h.late) ∧
    ((∀ c ∈ h.calls, c.isEntering = false) →
      ∀ later : List Move, (h.run later).isDead = true ∧ (h.run later).late = h.late) := by
  intro h
  obtain ⟨hqueue, hwaiters⟩ := onlyLate_run s ms hdead
  exact ⟨hqueue, fun _ hid => hwaiters hid, fun hnone => late_run (staffed_run s ms) hdead hnone⟩

/-- Two calls, of which one is at the worker and one in the queue when the pool closes. -/
def closeOnTwo : List Move :=
  [.submit [] .tsql 1000, .proceed 0, .proceed 0, .proceed 0,
    .submit [] .tsql 1000, .proceed 1, .proceed 1, .proceed 1, .close, .drain]

theorem stranded_entered_late_none :
    let h := (start { poolSize := 1 }).run closeOnTwo
    h.pool.queue = [] ∧ h.pool.waiters = [] ∧ ∀ later : List Move, (h.run later).late = [] := by
  have hdead : ((start { poolSize := 1 }).run closeOnTwo).isDead = true := by decide +kernel
  have hlate : ((start { poolSize := 1 }).run closeOnTwo).late = [] := by decide +kernel
  have hnone : ∀ c ∈ ((start { poolSize := 1 }).run closeOnTwo).calls, c.isEntering = false := by
    decide +kernel
  obtain ⟨hqueue, hwaiters, hforever⟩ := stranded_entered_late { poolSize := 1 } closeOnTwo hdead
  rw [hlate] at hqueue hwaiters hforever
  refine ⟨?_, List.subset_nil.mp hwaiters, fun later => (hforever hnone later).2⟩
  exact List.eq_nil_iff_forall_not_mem.mpr fun j hj => List.not_mem_nil (hqueue j hj)

/-- A caller finds the pool alive and enters its job when it is dead: closed in one run, given up after
the crash of its only worker in the other. -/
theorem stranded_between_check_and_queue :
    (let h := (start { poolSize := 1 }).run
      [.submit [] .tsql 1000, .proceed 0, .proceed 0, .close, .drain, .proceed 0]
    h.isDrained = true ∧ h.pool.queue ≠ [] ∧ h.pool.waiters ≠ []) ∧
    (let h := (start { poolSize := 1, restart := { maxFailures := 1 } }).run
      [.submit [] .tsql 1000, .proceed 0, .proceed 0, .submit [] .tsql 1000, .proceed 1, .proceed 1,
        .proceed 1, .parse 0 .crashed, .report 0, .exit 0, .proceed 0]
    h.pool.isExhausted = true ∧ h.pool.queue ≠ [] ∧ h.pool.waiters ≠ []) := by
  decide +kernel

end Pool.History

end SqlAtlas
