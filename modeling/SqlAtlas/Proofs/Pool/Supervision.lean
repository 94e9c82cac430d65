import SqlAtlas.Proofs.Pool.Staff

/-!
# Supervision

How far the supervisors of a pool can be trusted. Until a closed pool has given up its jobs, a live
supervisor is one with a line to its worker; afterwards no slot has a line, and supervisors have not
been told. Crashes are bounded: a slot fails a limited number of times in a row, starts no more
workers than that and its answers allow for, and is given up for good.
-/

namespace SqlAtlas

set_option autoImplicit false

namespace Pool

/-! ### Readiness -/

namespace Execution

theorem staffed (s : ParseSettings) (ms : List Move) :
    ∃ h : History, h.toExecution = (start s).run ms ∧ h.Staffed s.restart.maxFailures :=
  ⟨_, History.toExecution_run (History.start s) ms, History.staffed_run s ms⟩

/-- Until the jobs are given up, the pool is ready exactly when some slot has a line, and counts as
live the slots that have one. Then all lines are cut. -/
theorem ready_iff_line (s : ParseSettings) (ms : List Move) :
    let e := (start s).run ms
    (e.isDrained = false →
      (∀ slot ∈ e.pool.slots, slot.supervisor.isLive = true ↔ slot.line ≠ .absent) ∧
      (e.pool.isReady = true ↔ ∃ slot ∈ e.pool.slots, slot.line ≠ .absent) ∧
      e.pool.stats.live = e.pool.slots.countP fun slot => decide (slot.line ≠ .absent)) ∧
    (e.isDrained = true → ∀ slot ∈ e.pool.slots, slot.line = .absent) := by
  intro e
  obtain ⟨h, he, hstaffed⟩ := staffed s ms
  change h.toExecution = e at he
  rw [← he]
  constructor
  · intro hopen
    have hline : ∀ slot ∈ h.pool.slots, slot.supervisor.isLive = true ↔ slot.line ≠ .absent := by
      intro slot hslot
      obtain ⟨i, hi⟩ := List.mem_iff_getElem?.mp hslot
      exact ((hstaffed.wired i slot hi).line hopen).symm
    refine ⟨hline, ?_, ?_⟩
    · rw [isReady, List.any_eq_true]
      constructor
      · rintro ⟨slot, hslot, hlive⟩
        exact ⟨slot, hslot, (hline slot hslot).mp hlive⟩
      · rintro ⟨slot, hslot, hsome⟩
        exact ⟨slot, hslot, (hline slot hslot).mpr hsome⟩
    · apply List.countP_congr
      intro slot hslot
      rw [decide_eq_true_eq]
      exact hline slot hslot
  · intro hdrained slot hslot
    obtain ⟨i, hi⟩ := List.mem_iff_getElem?.mp hslot
    exact (hstaffed.wired i slot hi).cut hdrained

/-- A call that gets as far as the queue, and what the first worker makes of it. -/
def request (call : Nat) (outcome : ParseOutcome) : List Move :=
  [.submit [] .tsql 1000, .proceed call, .proceed call, .proceed call, .parse 0 outcome, .report 0]

def oneCrash : List Move := request 0 .crashed ++ [.exit 0]

theorem ready_iff_line_crash :
    let e := (start { poolSize := 2 }).run oneCrash
    e.isDrained = false ∧ e.pool.isReady = true ∧ (∃ slot ∈ e.pool.slots, slot.line ≠ .absent) ∧
      e.pool.stats.live = e.pool.slots.countP fun slot => decide (slot.line ≠ .absent) := by
  have hopen : ((start { poolSize := 2 }).run oneCrash).isDrained = false := by decide +kernel
  have hready : ((start { poolSize := 2 }).run oneCrash).pool.isReady = true := by decide +kernel
  obtain ⟨-, hiff, hlive⟩ := (ready_iff_line { poolSize := 2 } oneCrash).1 hopen
  exact ⟨hopen, hready, hiff.mp hready, hlive⟩

/-- Supervisors are not told when their lines are cut: a closed pool is ready with no line at all. -/
theorem ready_without_line :
    let e := (start { poolSize := 1 }).run [.close, .drain]
    e.pool.isReady = true ∧ e.pool.stats.live = 1 ∧
      ∃ slot ∈ e.pool.slots, slot.supervisor.isLive = true ∧ slot.line = .absent := by
  decide +kernel

end Execution

/-! ### Crashes -/

def GivenUp (slots : List Slot) (i : Nat) : Prop :=
  ∃ s, slots[i]? = some s ∧ s.supervisor.degraded = true

theorem GivenUp.set {slots : List Slot} {i : Nat} (h : GivenUp slots i) {k : Nat} {s s' : Slot}
    (hs : slots[k]? = some s)
    (hkeeps : s.supervisor.degraded = true → s'.supervisor.degraded = true) :
    GivenUp (slots.set k s') i :=
  exists_getElem?_set h hs fun _ hd => hkeeps hd

namespace History

open Execution (Move)

theorem givenUp_change {i : Nat} {g h : History} (hgiven : GivenUp g.pool.slots i)
    (hchange : Change g h) : GivenUp h.pool.slots i := by
  cases hchange with
  | pass | skip | enlist | breakOff | forget | parse | hangUp | heed | cancel | close => exact hgiven
  | give hslot _ _ _ => exact hgiven.set hslot fun hd => hd
  | retire hslot _ =>
    rw [slots_retire hslot]
    refine hgiven.set hslot ?_
    intro hd
    rw [Supervisor.exited_degraded, hd, Bool.true_or]
  | answer _ hslot _ =>
    obtain ⟨answers, hreply⟩ := g.pool.reply_eq _ _
    rw [hreply]
    exact hgiven.set (slotOf?_eq_some.mp hslot).1 fun hd => hd
  | fail _ _ =>
    obtain ⟨answers, hreply⟩ := g.pool.reply_eq _ _
    rw [hreply]
    exact hgiven
  | respawn _ _ hslot => exact hgiven.set hslot fun hd => hd
  | disconnect hslot _ _ => exact hgiven.set hslot fun hd => hd
  | drain _ =>
    obtain ⟨s, hs, hd⟩ := hgiven
    exact ⟨_, (List.getElem?_map ..).trans (congrArg _ hs), hd⟩

/-- A slot that was given up has no live worker and is due none. -/
theorem Staffed.idle_of_givenUp {limit : Nat} {h : History} (hs : Staffed limit h) {i : Nat}
    (hgiven : GivenUp h.pool.slots i) :
    ∃ s, h.pool.slots[i]? = some s ∧ s.supervisor.degraded = true ∧ s.supervisor.isLive = false ∧
      dueAt h.pool.respawns i = 0 := by
  obtain ⟨s, hat, hd⟩ := hgiven
  refine ⟨s, hat, hd, ?_, (hs.wired i s hat).vacant (.inr hd)⟩
  simp [Supervisor.isLive, (hs.books i s hat).gone hd]

theorem Staffed.spawnAttempts_le {limit : Nat} {h : History} (hs : Staffed limit h) {i : Nat}
    {slot : Slot} (hslot : h.pool.slots[i]? = some slot) :
    slot.supervisor.spawnAttempts ≤ max limit 1 + h.answeredBy i := by
  have hbooks := hs.books i slot hslot
  have hattempts := hbooks.attempts
  have hbounded := hbooks.bounded
  by_cases hexited : slot.supervisor.state = .exited
  · rw [if_pos hexited] at hattempts
    omega
  · have hspare := hbooks.spare (hbooks.not_degraded hexited)
    rw [if_neg hexited] at hattempts
    omega

/-- Until the pool is closed, a slot that has failed and was not given up is due one new worker. A
worker that is due after that does not start, and nothing is due in the slot any more. -/
theorem crashes_bounded (s : ParseSettings) (ms : List Move) (i : Nat) (slot : Slot)
    (hslot : ((start s).run ms).pool.slots[i]? = some slot) :
    let h := (start s).run ms
    slot.supervisor.failures ≤ max s.restart.maxFailures 1 ∧
    (slot.supervisor.degraded = true → ∀ later : List Move,
      ∃ t, (h.run later).pool.slots[i]? = some t ∧ t.supervisor.degraded = true ∧
        t.supervisor.isLive = false ∧ dueAt (h.run later).pool.respawns i = 0) ∧
    (slot.supervisor.state = .exited → slot.supervisor.degraded = false →
      dueAt h.pool.respawns i ≤ 1 ∧ (h.pool.isShutdown = false → dueAt h.pool.respawns i = 1)) ∧
    slot.supervisor.spawnAttempts ≤ max s.restart.maxFailures 1 + h.answeredBy i := by
  intro h
  have hstaffed := staffed_run s ms
  refine ⟨(hstaffed.books i slot hslot).bounded, ?_, (hstaffed.wired i slot hslot).due,
    hstaffed.spawnAttempts_le hslot⟩
  intro hd later
  have hgiven : GivenUp (h.run later).pool.slots i :=
    run_induction (fun hg hc => givenUp_change hg hc) ⟨slot, hslot, hd⟩ later
  have hlater : Staffed s.restart.maxFailures (h.run later) :=
    run_induction (fun hs hc => hs.change hc) hstaffed later
  exact hlater.idle_of_givenUp hgiven

theorem exited_for_good_once_closed :
    let h := (start { poolSize := 1 }).run (Execution.oneCrash ++ [.close, .drain, .respawn 0])
    (∃ slot ∈ h.pool.slots, slot.supervisor.state = .exited ∧ slot.supervisor.degraded = false) ∧
      h.pool.respawns = [] := by
  decide +kernel

def crashStorm : List Move :=
  Execution.oneCrash ++ [.respawn 0] ++ Execution.request 1 .refused ++
    Execution.request 2 .crashed ++ [.exit 0, .respawn 0] ++ Execution.request 3 .crashed ++ [.exit 0]

/-- Two failures in a row are too many here, and the slot has then started as many workers as two
failures and one answer allow for. -/
theorem crashes_bounded_storm :
    let h := (start { poolSize := 1, restart := { maxFailures := 2 } }).run crashStorm
    ∃ slot, h.pool.slots[0]? = some slot ∧ slot.supervisor.spawnAttempts = 3 ∧
      slot.supervisor.spawnAttempts ≤ max 2 1 + h.answeredBy 0 ∧ ∀ later : List Move,
        ∃ t, (h.run later).pool.slots[0]? = some t ∧ t.supervisor.isLive = false := by
  have hlast : ((start { poolSize := 1, restart := { maxFailures := 2 } }).run
      crashStorm).pool.slots[0]?.any (fun slot =>
        slot.supervisor.degraded && decide (slot.supervisor.spawnAttempts = 3)) = true := by
    decide +kernel
  obtain ⟨slot, hslot, hgiven⟩ := (Option.any_eq_true _ _).mp hlast
  obtain ⟨hd, hthree⟩ := (Bool.and_eq_true _ _).mp hgiven
  obtain ⟨-, hforever, -, hattempts⟩ := crashes_bounded _ crashStorm 0 slot hslot
  refine ⟨slot, hslot, of_decide_eq_true hthree, hattempts, ?_⟩
  intro later
  obtain ⟨t, ht, -, hdead, -⟩ := hforever hd later
  exact ⟨t, ht, hdead⟩

end History

end Pool

end SqlAtlas
