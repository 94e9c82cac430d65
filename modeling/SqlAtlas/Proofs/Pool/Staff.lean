import Mathlib.Data.List.Nodup
import Mathlib.Data.List.Perm.Basic
import SqlAtlas.Proofs.Pool.Slot

/-!
# The staff of a pool

Every slot of a pool keeps its books and is wired, in every state between two changes. The numbers of
workers are distinct, a worker that has ended is no worker any more, and a parse that has yet to be
reported is the job of a worker.
-/

namespace SqlAtlas

set_option autoImplicit false

namespace Pool

def Known (slots : List Slot) (id : WorkerId) : Prop :=
  ∃ s, slots[id.slot]? = some s ∧ id.epoch ≤ s.epoch

theorem Known.set {slots : List Slot} {id : WorkerId} (h : Known slots id) {i : Nat} {s s' : Slot}
    (hs : slots[i]? = some s) (hle : s.epoch ≤ s'.epoch) : Known (slots.set i s') id :=
  exists_getElem?_set h hs fun _ hepoch => Nat.le_trans hepoch hle

theorem not_known_succ {slots : List Slot} {i : Nat} {s : Slot} (hs : slots[i]? = some s) :
    ¬ Known slots ⟨i, s.epoch + 1⟩ := by
  rintro ⟨t, ht, hepoch⟩
  obtain rfl := Option.some.inj (hs.symm.trans ht)
  exact Nat.not_succ_le_self _ hepoch

namespace History

/-- The jobs that the workers of a slot have answered without a crash. -/
def answeredBy (h : History) (i : Nat) : Nat :=
  h.reported.countP fun p => decide (p.worker.slot = i) && !p.outcome.isCrash

theorem answeredBy_le (h : History) (p : Parse) (i : Nat) :
    h.answeredBy i ≤ answeredBy { h with reported := h.reported ++ [p] } i := by
  rw [answeredBy, answeredBy, List.countP_append]
  exact Nat.le_add_right _ _

structure Staffed (limit : Nat) (h : History) : Prop where
  books : ∀ (i : Nat) (s : Slot), h.pool.slots[i]? = some s → s.supervisor.Books limit (h.answeredBy i)
  wired : ∀ (i : Nat) (s : Slot), h.pool.slots[i]? = some s →
    Wired h.isDrained h.pool.isShutdown h.pool.workers h.pool.exits h.pool.respawns i s
  distinct : (h.pool.workers.map Worker.id).Nodup
  workers : ∀ w ∈ h.pool.workers, Known h.pool.slots w.id
  exits : ∀ id ∈ h.pool.exits, Known h.pool.slots id
  apart : ∀ w ∈ h.pool.workers, w.id ∉ h.pool.exits
  reporting : ∀ p ∈ h.unreported, ⟨p.worker, some p.job⟩ ∈ h.pool.workers
  once : (h.unreported.map Parse.worker).Nodup
  closing : h.closing = true → h.pool.isShutdown = true

namespace Staffed

variable {limit : Nat} {h : History}

theorem not_mem_workers_succ (hs : Staffed limit h) {i : Nat} {s : Slot}
    (hslot : h.pool.slots[i]? = some s) (job : Option Job) :
    (⟨⟨i, s.epoch + 1⟩, job⟩ : Worker) ∉ h.pool.workers :=
  fun hw => not_known_succ hslot (hs.workers _ hw)

theorem not_mem_exits_succ (hs : Staffed limit h) {i : Nat} {s : Slot}
    (hslot : h.pool.slots[i]? = some s) : (⟨i, s.epoch + 1⟩ : WorkerId) ∉ h.pool.exits :=
  fun he => not_known_succ hslot (hs.exits _ he)

theorem eq_of_id (hs : Staffed limit h) {v w : Worker} (hv : v ∈ h.pool.workers)
    (hw : w ∈ h.pool.workers) (hid : v.id = w.id) : v = w :=
  List.inj_on_of_nodup_map hs.distinct hv hw hid

theorem ne_of_free (hs : Staffed limit h) {id other : WorkerId} {job : Job}
    (hworker : ⟨id, some job⟩ ∈ h.pool.workers) (hfree : ⟨other, none⟩ ∈ h.pool.workers) :
    id ≠ other := by
  intro hid
  cases hs.eq_of_id hworker hfree hid

theorem busy (hs : Staffed limit h) {id : WorkerId} {job : Job} {slot : Slot}
    (hworker : ⟨id, some job⟩ ∈ h.pool.workers) (hslot : h.pool.slotOf? id = some slot) :
    slot.line = .connected ∧ slot.supervisor.state = .busy := by
  obtain ⟨hat, hepoch⟩ := slotOf?_eq_some.mp hslot
  have hid : id = ⟨id.slot, slot.epoch⟩ := by rw [hepoch]
  exact (hs.wired id.slot slot hat).busy job (hid ▸ hworker)

theorem give (hs : Staffed limit h) {i : Nat} {slot : Slot} {job : Job} {rest : List Job}
    (hslot : h.pool.slots[i]? = some slot) (hidle : slot.supervisor.state = .idle)
    (hline : slot.line = .connected) :
    Staffed limit { h with pool := h.pool.give i slot job rest } := by
  constructor
  case books =>
    intro k t ht
    rcases getElem?_set_cases ht with ⟨rfl, rfl⟩ | ⟨-, ht⟩
    · exact (hs.books k slot hslot).dispatched hidle
    · exact hs.books k t ht
  case wired =>
    intro k t ht
    rcases getElem?_set_cases ht with ⟨rfl, rfl⟩ | ⟨hk, ht⟩
    · exact (hs.wired k slot hslot).give hidle hline job
    · refine (hs.wired k t ht).frame (fun hc => hc) ?_ (fun he => he) rfl
      intro other
      exact mem_assign.trans (by simp [hk])
  case distinct =>
    exact (ids_assign h.pool.workers _ _).symm ▸ hs.distinct
  case workers =>
    intro w hw
    obtain ⟨v, hv, hsame⟩ := exists_of_mem_assign hw
    exact (hsame ▸ hs.workers v hv).set hslot (Nat.le_refl _)
  case exits => exact fun id he => (hs.exits id he).set hslot (Nat.le_refl _)
  case apart =>
    intro w hw
    obtain ⟨v, hv, hsame⟩ := exists_of_mem_assign hw
    exact hsame ▸ hs.apart v hv
  case reporting =>
    intro p hp
    have hworker := hs.reporting p hp
    have hfree := (hs.wired i slot hslot).free hidle hline
    exact mem_assign.mpr (.inl ⟨hs.ne_of_free hworker hfree, hworker⟩)
  case once => exact hs.once
  case closing => exact hs.closing

theorem withdraw (hs : Staffed limit h) {i : Nat} {slot : Slot}
    (hslot : h.pool.slots[i]? = some slot) (hstate : slot.supervisor.state ≠ .exited) :
    Staffed limit { h with pool := h.pool.withdraw i slot } := by
  constructor
  case books =>
    intro k t ht
    rcases getElem?_set_cases ht with ⟨rfl, rfl⟩ | ⟨-, ht⟩
    · exact (hs.books k slot hslot).exited hstate
    · exact hs.books k t ht
  case wired =>
    intro k t ht
    rcases getElem?_set_cases ht with ⟨rfl, rfl⟩ | ⟨hk, ht⟩
    · exact (hs.wired k slot hslot).withdraw hstate (hs.not_mem_workers_succ hslot)
        (hs.not_mem_exits_succ hslot)
    · exact (hs.wired k t ht).frame (fun hc => hc) (fun _ => Iff.rfl) (fun he => he)
        (dueAt_append_due_ne hk _)
  case distinct => exact hs.distinct
  case workers => exact fun w hw => (hs.workers w hw).set hslot (Nat.le_succ _)
  case exits => exact fun id he => (hs.exits id he).set hslot (Nat.le_succ _)
  case apart => exact hs.apart
  case reporting => exact hs.reporting
  case once => exact hs.once
  case closing => exact hs.closing

/-- A worker that ended or is out of reach counts as live until it is written off. -/
theorem live_of_gone (hs : Staffed limit h) {i : Nat} {slot : Slot}
    (hslot : h.pool.slots[i]? = some slot)
    (hgone : slot.supervisor.state = .idle ∧ slot.line = .broken ∨ ⟨i, slot.epoch⟩ ∈ h.pool.exits) :
    slot.supervisor.isLive = true ∧ slot.line ≠ .absent := by
  rcases hgone with ⟨hidle, hline⟩ | hended
  · simp [Supervisor.isLive, hidle, hline]
  · obtain ⟨hline, hbusy⟩ := (hs.wired i slot hslot).ended hended
    simp [Supervisor.isLive, hbusy, hline]

theorem retire (hs : Staffed limit h) {i : Nat} {slot : Slot}
    (hslot : h.pool.slots[i]? = some slot)
    (hgone : slot.supervisor.state = .idle ∧ slot.line = .broken ∨ ⟨i, slot.epoch⟩ ∈ h.pool.exits) :
    Staffed limit { h with pool := h.pool.retire i } := by
  have hlive := (hs.live_of_gone hslot hgone).1
  have hw := hs.withdraw hslot (by rintro hexited; simp [Supervisor.isLive, hexited] at hlive)
  rw [retire_eq hslot]
  split
  · exact ⟨hw.books, hw.wired, hw.distinct, hw.workers, hw.exits, hw.apart, hw.reporting, hw.once,
      hw.closing⟩
  · exact hw

theorem parse (hs : Staffed limit h) {id : WorkerId} {job : Job} (outcome : ParseOutcome)
    (hworker : ⟨id, some job⟩ ∈ h.pool.workers) (hnew : ∀ p ∈ h.unreported, p.worker ≠ id) :
    Staffed limit { h with
      parses := h.parses ++ [⟨id, job, outcome⟩]
      unreported := h.unreported ++ [⟨id, job, outcome⟩] } := by
  refine ⟨hs.books, hs.wired, hs.distinct, hs.workers, hs.exits, hs.apart, ?_, ?_, hs.closing⟩
  · intro p hp
    rcases List.mem_append.mp hp with hold | hlast
    · exact hs.reporting p hold
    · rw [List.mem_singleton.mp hlast]
      exact hworker
  · simpa [List.nodup_append, hs.once] using hnew

theorem unreported_eraseIdx (hs : Staffed limit h) {n : Nat} {p : Parse}
    (hp : h.unreported[n]? = some p) :
    (h.unreported.eraseIdx n ⊆ h.unreported ∧ ∀ q ∈ h.unreported.eraseIdx n, q.worker ≠ p.worker) ∧
      ((h.unreported.eraseIdx n).map Parse.worker).Nodup := by
  obtain ⟨hn, rfl⟩ := List.getElem?_eq_some_iff.mp hp
  have hperm := (List.getElem_cons_eraseIdx_perm hn).map Parse.worker
  have honce := hperm.nodup_iff.mpr hs.once
  rw [List.map_cons, List.nodup_cons] at honce
  refine ⟨⟨(List.eraseIdx_sublist _ _).subset, ?_⟩, honce.2⟩
  intro q hq heq
  exact honce.1 (heq ▸ List.mem_map_of_mem hq)

theorem answer (hs : Staffed limit h) {n : Nat} {p : Parse} {slot : Slot}
    (hp : h.unreported[n]? = some p) (hslot : h.pool.slotOf? p.worker = some slot)
    (hcrash : p.outcome.isCrash = false) :
    Staffed limit { h with
      pool := (h.pool.reply p.job.id p.outcome.tree?).release p.worker slot
      unreported := h.unreported.eraseIdx n
      reported := h.reported ++ [p] } := by
  obtain ⟨answers, hreply⟩ := h.pool.reply_eq p.job.id p.outcome.tree?
  obtain ⟨hat, hepoch⟩ := slotOf?_eq_some.mp hslot
  have hworker := hs.reporting p (List.mem_of_getElem? hp)
  obtain ⟨⟨hsub, hother⟩, honce⟩ := hs.unreported_eraseIdx hp
  have hid : p.worker = ⟨p.worker.slot, slot.epoch⟩ := by rw [hepoch]
  have hbusy := (hs.busy hworker hslot).2
  rw [hreply]
  constructor
  case books =>
    intro k t ht
    rcases getElem?_set_cases ht with ⟨rfl, rfl⟩ | ⟨-, ht⟩
    · have hone : answeredBy { h with reported := h.reported ++ [p] } p.worker.slot =
          h.answeredBy p.worker.slot + 1 := by
        simp [answeredBy, List.countP_append, hcrash]
      exact hone ▸ (hs.books _ slot hat).succeeded hbusy
    · exact (hs.books k t ht).mono (h.answeredBy_le p k)
  case wired =>
    intro k t ht
    rcases getElem?_set_cases ht with ⟨rfl, rfl⟩ | ⟨hk, ht⟩
    · have hreleased := (hs.wired _ slot hat).release (hid ▸ hworker)
        (hid ▸ hs.apart _ hworker)
      rw [← hid] at hreleased
      exact hreleased
    · refine (hs.wired k t ht).frame (fun hc => hc) ?_ (fun he => he) rfl
      intro other
      rw [hid]
      exact mem_assign.trans (by simp [hk])
  case distinct => exact (ids_assign h.pool.workers _ _).symm ▸ hs.distinct
  case workers =>
    intro w hw
    obtain ⟨v, hv, hsame⟩ := exists_of_mem_assign hw
    exact (hsame ▸ hs.workers v hv).set hat (Nat.le_refl _)
  case exits => exact fun id he => (hs.exits id he).set hat (Nat.le_refl _)
  case apart =>
    intro w hw
    obtain ⟨v, hv, hsame⟩ := exists_of_mem_assign hw
    exact hsame ▸ hs.apart v hv
  case reporting =>
    intro q hq
    exact mem_assign.mpr (.inl ⟨hother q hq, hs.reporting q (hsub hq)⟩)
  case once => exact honce
  case closing => exact hs.closing

theorem leave (hs : Staffed limit h) {id : WorkerId} {job : Option Job}
    (hworker : ⟨id, job⟩ ∈ h.pool.workers) (hlast : job.isSome = true ∨ h.pool.slotOf? id = none)
    {waiters : List Nat} {answers : Dict Nat (Option Tree)} {unreported reported : List Parse}
    (hsub : unreported ⊆ h.unreported) (hother : ∀ q ∈ unreported, q.worker ≠ id)
    (honce : (unreported.map Parse.worker).Nodup)
    (hmore : ∀ i, h.answeredBy i ≤ answeredBy { h with reported } i) :
    Staffed limit { h with
      pool := { h.pool with waiters, answers }.leave id, unreported, reported } := by
  constructor
  case books => exact fun k t ht => (hs.books k t ht).mono (hmore k)
  case wired =>
    intro k t ht
    rcases hlast with hjob | hslot
    · obtain ⟨job, rfl⟩ := Option.isSome_iff_exists.mp hjob
      exact (hs.wired k t ht).leave hworker
    · have hne : (⟨k, t.epoch⟩ : WorkerId) ≠ id := by
        rintro rfl
        rw [slotOf?_eq_some.mpr ⟨ht, rfl⟩] at hslot
        cases hslot
      refine (hs.wired k t ht).frame (fun hc => hc) ?_ ?_ rfl
      · intro job
        exact List.mem_filter.trans (by simp [hne])
      · intro he
        rcases List.mem_append.mp he with hold | hnew
        · exact hold
        · exact absurd (List.mem_singleton.mp hnew) hne
  case distinct => exact hs.distinct.sublist (List.filter_sublist.map _)
  case workers => exact fun w hw => hs.workers w (List.mem_filter.mp hw).1
  case exits =>
    intro other he
    rcases List.mem_append.mp he with hold | hnew
    · exact hs.exits other hold
    · rw [List.mem_singleton.mp hnew]
      exact hs.workers _ hworker
  case apart =>
    intro w hw he
    obtain ⟨hold, hne⟩ := List.mem_filter.mp hw
    rcases List.mem_append.mp he with he | hnew
    · exact hs.apart w hold he
    · exact of_decide_eq_true hne (List.mem_singleton.mp hnew)
  case reporting =>
    intro q hq
    exact List.mem_filter.mpr ⟨hs.reporting q (hsub hq), decide_eq_true (hother q hq)⟩
  case once => exact honce
  case closing => exact hs.closing

theorem fail (hs : Staffed limit h) {n : Nat} {p : Parse} (hp : h.unreported[n]? = some p) :
    Staffed limit { h with
      pool := (h.pool.reply p.job.id p.outcome.tree?).leave p.worker
      unreported := h.unreported.eraseIdx n
      reported := h.reported ++ [p] } := by
  obtain ⟨answers, hreply⟩ := h.pool.reply_eq p.job.id p.outcome.tree?
  have hworker := hs.reporting p (List.mem_of_getElem? hp)
  obtain ⟨⟨hsub, hother⟩, honce⟩ := hs.unreported_eraseIdx hp
  rw [hreply]
  exact hs.leave hworker (.inl rfl) hsub hother honce (h.answeredBy_le p)

theorem hangUp (hs : Staffed limit h) {id : WorkerId} (hworker : ⟨id, none⟩ ∈ h.pool.workers)
    (hslot : h.pool.slotOf? id = none) : Staffed limit { h with pool := h.pool.leave id } := by
  refine hs.leave hworker (.inr hslot) (List.Subset.refl _) ?_ hs.once fun _ => Nat.le_refl _
  exact fun q hq => hs.ne_of_free (hs.reporting q hq) hworker

theorem heed (hs : Staffed limit h) (id : WorkerId) :
    Staffed limit { h with pool := { h.pool with exits := h.pool.exits.erase id } } := by
  have hsub : h.pool.exits.erase id ⊆ h.pool.exits := List.erase_subset
  constructor
  case books => exact hs.books
  case wired =>
    exact fun k t ht => (hs.wired k t ht).frame (fun hc => hc) (fun _ => Iff.rfl) (fun he => hsub he) rfl
  case distinct => exact hs.distinct
  case workers => exact hs.workers
  case exits => exact fun other he => hs.exits other (hsub he)
  case apart => exact fun w hw he => hs.apart w hw (hsub he)
  case reporting => exact hs.reporting
  case once => exact hs.once
  case closing => exact hs.closing

theorem respawn (hs : Staffed limit h) {r : Respawn} {slot : Slot} (hr : r ∈ h.pool.respawns)
    (hopen : h.pool.isShutdown = false) (hslot : h.pool.slots[r.slot]? = some slot) :
    Staffed limit { h with
      pool := { h.pool with respawns := h.pool.respawns.erase r }.install r.slot slot } := by
  have hdrained : h.isDrained = false := by simp [Execution.isDrained, hopen]
  have hwired := hs.wired r.slot slot hslot
  obtain ⟨hexited, hd⟩ := hwired.exited_of_due hr rfl
  obtain ⟨hi, -⟩ := List.getElem?_eq_some_iff.mp hslot
  constructor
  case books =>
    intro k t ht
    rcases getElem?_set_cases ht with ⟨rfl, rfl⟩ | ⟨-, ht⟩
    · exact (hs.books _ slot hslot).respawned hexited hd
    · exact hs.books k t ht
  case wired =>
    intro k t ht
    rcases getElem?_set_cases ht with ⟨rfl, rfl⟩ | ⟨hk, ht⟩
    · have hnew := hwired.install (hs.not_mem_workers_succ hslot) (hs.not_mem_exits_succ hslot) hr rfl
      exact hdrained ▸ hnew
    · refine (hs.wired k t ht).frame (fun hc => hc) ?_ (fun he => he) (dueAt_erase_ne (Ne.symm hk))
      intro job
      exact List.mem_append.trans (by simp [hk])
  case distinct =>
    rw [install, List.map_append, List.nodup_append]
    refine ⟨hs.distinct, List.nodup_singleton _, ?_⟩
    intro id hid other hother heq
    obtain ⟨w, hw, rfl⟩ := List.mem_map.mp hid
    have hnew : w.id = ⟨r.slot, slot.epoch + 1⟩ := heq.trans (List.mem_singleton.mp hother)
    exact not_known_succ hslot (hnew ▸ hs.workers w hw)
  case workers =>
    intro w hw
    rcases List.mem_append.mp hw with hold | hnew
    · exact (hs.workers w hold).set hslot (Nat.le_succ _)
    · rw [List.mem_singleton.mp hnew]
      exact ⟨_, List.getElem?_set_self hi, Nat.le_refl _⟩
  case exits => exact fun id he => (hs.exits id he).set hslot (Nat.le_succ _)
  case apart =>
    intro w hw
    rcases List.mem_append.mp hw with hold | hnew
    · exact hs.apart w hold
    · rw [List.mem_singleton.mp hnew]
      exact hs.not_mem_exits_succ hslot
  case reporting => exact fun p hp => List.mem_append_left _ (hs.reporting p hp)
  case once => exact hs.once
  case closing => exact hs.closing

theorem cancel (hs : Staffed limit h) {r : Respawn}
    (hnone : h.pool.isShutdown = true ∨ h.pool.slots[r.slot]? = none) :
    Staffed limit { h with pool := { h.pool with respawns := h.pool.respawns.erase r } } := by
  refine ⟨hs.books, ?_, hs.distinct, hs.workers, hs.exits, hs.apart, hs.reporting, hs.once, hs.closing⟩
  intro k t ht
  have hwired := hs.wired k t ht
  rcases hnone with hclosed | hgone
  · have hle : dueAt (h.pool.respawns.erase r) k ≤ dueAt h.pool.respawns k :=
      List.erase_sublist.countP_le
    refine ⟨hwired.cut, hwired.line, hwired.free, hwired.busy, hwired.ended, ?_, ?_⟩
    · intro hstate
      have hzero := hwired.vacant hstate
      exact Nat.le_zero.mp (hzero ▸ hle)
    · intro hexited hd
      refine ⟨Nat.le_trans hle (hwired.due hexited hd).1, ?_⟩
      simp [hclosed]
  · refine hwired.frame (fun hc => hc) (fun _ => Iff.rfl) (fun he => he) (dueAt_erase_ne ?_)
    rintro rfl
    rw [hgone] at ht
    cases ht

theorem disconnect (hs : Staffed limit h) {i : Nat} {slot : Slot}
    (hslot : h.pool.slots[i]? = some slot) (hidle : slot.supervisor.state = .idle)
    (hline : slot.line = .connected) :
    Staffed limit { h with pool := { h.pool with
      slots := h.pool.slots.set i { slot with line := .broken }
      workers := h.pool.workers.filter fun w => decide (w.id ≠ ⟨i, slot.epoch⟩) } } := by
  constructor
  case books =>
    intro k t ht
    rcases getElem?_set_cases ht with ⟨rfl, rfl⟩ | ⟨-, ht⟩
    · exact hs.books k slot hslot
    · exact hs.books k t ht
  case wired =>
    intro k t ht
    rcases getElem?_set_cases ht with ⟨rfl, rfl⟩ | ⟨hk, ht⟩
    · exact (hs.wired k slot hslot).disconnect hidle hline
    · refine (hs.wired k t ht).frame (fun hc => hc) ?_ (fun he => he) rfl
      intro job
      exact List.mem_filter.trans (by simp [hk])
  case distinct => exact hs.distinct.sublist (List.filter_sublist.map _)
  case workers => exact fun w hw => (hs.workers w (List.mem_filter.mp hw).1).set hslot (Nat.le_refl _)
  case exits => exact fun id he => (hs.exits id he).set hslot (Nat.le_refl _)
  case apart => exact fun w hw => hs.apart w (List.mem_filter.mp hw).1
  case reporting =>
    intro q hq
    have hfree := (hs.wired i slot hslot).free hidle hline
    have hne := hs.ne_of_free (hs.reporting q hq) hfree
    exact List.mem_filter.mpr ⟨hs.reporting q hq, decide_eq_true hne⟩
  case once => exact hs.once
  case closing => exact hs.closing

theorem close (hs : Staffed limit h) (hopen : h.pool.isShutdown = false) :
    Staffed limit { h with pool := h.pool.raiseShutdown, closing := true } := by
  have hdrained : h.isDrained = false := by simp [Execution.isDrained, hopen]
  refine ⟨hs.books, ?_, hs.distinct, hs.workers, hs.exits, hs.apart, hs.reporting, hs.once, fun _ => rfl⟩
  intro k t ht
  have hwired : Wired h.isDrained true h.pool.workers h.pool.exits h.pool.respawns k t :=
    (hs.wired k t ht).frame (fun _ => hopen) (fun _ => Iff.rfl) (fun he => he) rfl
  rw [hdrained] at hwired
  exact hwired

theorem drain (hs : Staffed limit h) (hclosing : h.closing = true) :
    Staffed limit { h with pool := h.pool.drain, closing := false } := by
  have hflag := hs.closing hclosing
  have hslots {k : Nat} {t : Slot} (ht : h.pool.drain.slots[k]? = some t) :
      ∃ s, h.pool.slots[k]? = some s ∧ t = { s with line := .absent, epoch := s.epoch + 1 } := by
    obtain ⟨s, hs, rfl⟩ := Option.map_eq_some_iff.mp ((List.getElem?_map ..).symm.trans ht)
    exact ⟨s, hs, rfl⟩
  have hknown {id : WorkerId} (hid : Known h.pool.slots id) : Known h.pool.drain.slots id := by
    obtain ⟨s, hat, hle⟩ := hid
    exact ⟨_, (List.getElem?_map ..).trans (congrArg _ hat), Nat.le_succ_of_le hle⟩
  constructor
  case books =>
    intro k t ht
    obtain ⟨s, hat, rfl⟩ := hslots ht
    exact hs.books k s hat
  case wired =>
    intro k t ht
    obtain ⟨s, hat, rfl⟩ := hslots ht
    have hwired := (hs.wired k s hat).drain (hs.not_mem_workers_succ hat) (hs.not_mem_exits_succ hat)
    have hdrained : Execution.isDrained { h with pool := h.pool.drain, closing := false } = true := by
      simp [Execution.isDrained, Pool.drain, Pool.abandon, hflag]
    rw [← hdrained] at hwired
    exact hwired
  case distinct => exact hs.distinct
  case workers => exact fun w hw => hknown (hs.workers w hw)
  case exits => exact fun id he => hknown (hs.exits id he)
  case apart => exact hs.apart
  case reporting => exact hs.reporting
  case once => exact hs.once
  case closing => simp

theorem change (hs : Staffed limit h) {h' : History} (hchange : Change h h') : Staffed limit h' := by
  cases hchange with
  | pass | skip | enlist | breakOff | forget =>
    exact ⟨hs.books, hs.wired, hs.distinct, hs.workers, hs.exits, hs.apart, hs.reporting, hs.once,
      hs.closing⟩
  | give hslot hidle hline _ => exact hs.give hslot hidle hline
  | retire hslot hgone => exact hs.retire hslot hgone
  | parse outcome hworker hnew => exact hs.parse outcome hworker hnew
  | answer hp hslot hcrash => exact hs.answer hp hslot hcrash
  | fail hp _ => exact hs.fail hp
  | hangUp hworker hslot => exact hs.hangUp hworker hslot
  | heed _ => exact hs.heed _
  | respawn hr hopen hslot => exact hs.respawn hr hopen hslot
  | cancel hnone => exact hs.cancel hnone
  | disconnect hslot hidle hline => exact hs.disconnect hslot hidle hline
  | close hopen => exact hs.close hopen
  | drain hclosing => exact hs.drain hclosing

end Staffed

theorem staffed_start (s : ParseSettings) : Staffed s.restart.maxFailures (start s) := by
  have hslots {i : Nat} {t : Slot} (ht : (start s).pool.slots[i]? = some t) :
      i < s.poolSize ∧ t = firstSlot s := by
    change (Pool.start s).slots[i]? = some t at ht
    rw [start_eq, List.getElem?_replicate] at ht
    split at ht
    · rename_i hi
      exact ⟨hi, (Option.some.inj ht).symm⟩
    · cases ht
  have hworkers (w : Worker) : w ∈ (start s).pool.workers ↔ ∃ i < s.poolSize, w = ⟨⟨i, 1⟩, none⟩ := by
    change w ∈ (Pool.start s).workers ↔ _
    simp [start_eq, eq_comm]
  have hexits : (start s).pool.exits = [] := by simp [start, Execution.start, start_eq]
  have hrespawns : (start s).pool.respawns = [] := by simp [start, Execution.start, start_eq]
  have hopen : (start s).pool.isShutdown = false := by simp [start, Execution.start, start_eq]
  have hdrained : (start s).isDrained = false := by simp [Execution.isDrained, hopen]
  constructor
  case books =>
    intro i t ht
    obtain ⟨-, rfl⟩ := hslots ht
    refine ⟨rfl, Nat.zero_le _, fun _ => ?_, by simp [firstSlot], by simp [firstSlot]⟩
    exact Nat.lt_of_lt_of_le Nat.zero_lt_one (Nat.le_max_right _ _)
  case wired =>
    intro i t ht
    obtain ⟨hi, rfl⟩ := hslots ht
    rw [hdrained, hexits, hrespawns]
    constructor <;> simp [firstSlot, hworkers, hi, Supervisor.isLive, dueAt]
  case distinct =>
    change ((Pool.start s).workers.map Worker.id).Nodup
    rw [start_eq, List.map_map]
    refine List.nodup_range.map ?_
    intro i k hik
    simpa using hik
  case workers =>
    intro w hw
    obtain ⟨i, hi, rfl⟩ := (hworkers w).mp hw
    refine ⟨firstSlot s, ?_, Nat.le_refl _⟩
    change (Pool.start s).slots[i]? = _
    rw [start_eq, List.getElem?_replicate, if_pos hi]
  case exits => simp [hexits]
  case apart => simp [hexits]
  case reporting => exact fun p hp => absurd hp List.not_mem_nil
  case once => exact List.nodup_nil
  case closing => exact fun hc => absurd hc (by simp [start, Execution.start])

theorem staffed_run (s : ParseSettings) (ms : List Execution.Move) :
    Staffed s.restart.maxFailures ((start s).run ms) :=
  run_induction (fun hs hchange => hs.change hchange) (staffed_start s) ms

end History

end Pool

end SqlAtlas
