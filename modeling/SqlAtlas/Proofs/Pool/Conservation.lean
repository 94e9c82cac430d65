import Mathlib.Data.List.TakeWhile
import SqlAtlas.Proofs.Pool.Dispatch
import SqlAtlas.Proofs.Pool.Staff

/-!
# Conservation of jobs

No job is lost, duplicated or overtaken. Jobs that were handed out and jobs in the queue are, one
after the other, among the jobs that were entered, in their order (`Ledger`). A caller that is still
registered has its job in the queue or at a worker, unless its time is up (`Waiting`). A worker that
has a job which was parsed has yet to report it (`Parses`).

A caller that failed to enter its job is registered all the same, and no job goes with it. This only
happens to callers who would wait until after the end of the clock.
-/

namespace SqlAtlas

set_option autoImplicit false

namespace Pool

def Current (slots : List Slot) (id : WorkerId) : Prop :=
  ∃ s, slots[id.slot]? = some s ∧ s.epoch = id.epoch

/-- A change of one slot leaves its worker where it was, or concerns another worker. -/
theorem Current.set {slots : List Slot} {id : WorkerId} (h : Current slots id) {i : Nat} {s s' : Slot}
    (hs : slots[i]? = some s) (hsame : s'.epoch = s.epoch ∨ id ≠ ⟨i, s.epoch⟩) :
    Current (slots.set i s') id := by
  refine exists_getElem?_set h hs ?_
  intro hi hepoch
  rcases hsame with hsame | hne
  · exact hsame.trans hepoch
  · exact absurd (by rw [hi, hepoch]) hne

def Held (p : Pool) (j : Job) : Prop := ∃ id, ⟨id, some j⟩ ∈ p.workers ∧ Current p.slots id

/-- Where the job of a waiting caller can be. -/
def Pending (p : Pool) (j : Job) : Prop := j ∈ p.queue ∨ p.Held j ∨ j.isOverdue p.now = true

theorem isOverdue_mono {j : Job} {now later : Nat} (hle : now ≤ later) (h : j.isOverdue now = true) :
    j.isOverdue later = true := by
  exact decide_eq_true (Nat.le_trans (of_decide_eq_true h) hle)

namespace History

variable {limit : Nat} {h h' : History}

/-! ### The order of jobs -/

/-- The numbers that were given out, to jobs or in vain. -/
def numbers (h : History) : List Nat := h.entered.map Job.id ++ h.failed

structure Ledger (h : History) : Prop where
  ids : h.numbers.Nodup
  fresh : ∀ id ∈ h.numbers, id < h.pool.nextJob
  order : (h.pool.handed ++ h.pool.queue).Sublist h.entered
  held : ∀ id j, ⟨id, some j⟩ ∈ h.pool.workers → j ∈ h.pool.handed
  single : ∀ id id' j, ⟨id, some j⟩ ∈ h.pool.workers → ⟨id', some j⟩ ∈ h.pool.workers → id = id'

namespace Ledger

theorem nodup_entered (hl : Ledger h) : (h.entered.map Job.id).Nodup :=
  (List.nodup_append.mp hl.ids).1

theorem nodup (hl : Ledger h) : (h.pool.handed ++ h.pool.queue).Nodup :=
  (List.Nodup.of_map _ hl.nodup_entered).sublist hl.order

theorem not_handed (hl : Ledger h) {j : Job} (hj : j ∈ h.pool.queue) : j ∉ h.pool.handed :=
  fun hhanded => (List.nodup_append.mp hl.nodup).2.2 j hhanded j hj rfl

theorem handed_subset (hl : Ledger h) : h.pool.handed ⊆ h.entered :=
  fun _ hj => hl.order.subset (List.mem_append_left _ hj)

/-- Jobs leave the queue, workers lose their jobs, and nothing else happens to either. -/
theorem mono (hl : Ledger h) (hentered : h'.entered = h.entered) (hfailed : h'.failed = h.failed)
    (hnext : h'.pool.nextJob = h.pool.nextJob) (hhanded : h'.pool.handed = h.pool.handed)
    (hqueue : h'.pool.queue.Sublist h.pool.queue)
    (hworkers : ∀ id j, ⟨id, some j⟩ ∈ h'.pool.workers → ⟨id, some j⟩ ∈ h.pool.workers) :
    Ledger h' := by
  have hnumbers : h'.numbers = h.numbers := by rw [numbers, hentered, hfailed, numbers]
  constructor
  case ids => exact hnumbers ▸ hl.ids
  case fresh => exact hnumbers ▸ hnext ▸ hl.fresh
  case order =>
    rw [hentered, hhanded]
    exact ((List.Sublist.refl _).append hqueue).trans hl.order
  case held => exact fun id j hw => hhanded ▸ hl.held id j (hworkers id j hw)
  case single => exact fun id id' j hv hw => hl.single id id' j (hworkers id j hv) (hworkers id' j hw)

theorem give (hl : Ledger h) {i : Nat} {slot : Slot} {job : Job} {rest : List Job}
    (hqueue : h.pool.queue = job :: rest) : Ledger { h with pool := h.pool.give i slot job rest } := by
  have hnew : job ∉ h.pool.handed := hl.not_handed (by simp [hqueue])
  -- a worker with the job of before is none but the one that has just got it
  have hcases {id : WorkerId} {j : Job} (hw : ⟨id, some j⟩ ∈ (h.pool.give i slot job rest).workers) :
      ⟨id, some j⟩ ∈ h.pool.workers ∧ j ≠ job ∨ id = ⟨i, slot.epoch⟩ ∧ j = job := by
    rcases mem_assign.mp hw with ⟨-, hold⟩ | ⟨heq, -⟩
    · refine .inl ⟨hold, ?_⟩
      rintro rfl
      exact hnew (hl.held id j hold)
    · obtain ⟨rfl, hjob⟩ := Worker.mk.inj heq
      exact .inr ⟨rfl, Option.some.inj hjob⟩
  constructor
  case ids => exact hl.ids
  case fresh => exact hl.fresh
  case order =>
    have horder := hl.order
    rw [hqueue] at horder
    simpa [Pool.give, hand] using horder
  case held =>
    intro id j hw
    refine List.mem_append.mpr ?_
    rcases hcases hw with ⟨hold, -⟩ | ⟨-, rfl⟩
    · exact .inl (hl.held id j hold)
    · exact .inr (List.mem_singleton.mpr rfl)
  case single =>
    intro id id' j hv hw
    rcases hcases hv with ⟨hv, hne⟩ | ⟨hid, hj⟩
    · rcases hcases hw with ⟨hw, -⟩ | ⟨-, hj⟩
      · exact hl.single id id' j hv hw
      · exact absurd hj hne
    · rcases hcases hw with ⟨-, hne⟩ | ⟨hid', -⟩
      · exact absurd hj hne
      · rw [hid, hid']

theorem numbered (hl : Ledger h) {numbers : List Nat}
    (hnumbers : numbers.Perm (h.pool.nextJob :: h.numbers)) :
    numbers.Nodup ∧ ∀ id ∈ numbers, id < h.pool.nextJob + 1 := by
  constructor
  · rw [hnumbers.nodup_iff, List.nodup_cons]
    exact ⟨fun hold => Nat.lt_irrefl _ (hl.fresh _ hold), hl.ids⟩
  · intro id hid
    rcases List.mem_cons.mp (hnumbers.subset hid) with rfl | hold
    · exact Nat.lt_succ_self _
    · exact Nat.lt_succ_of_lt (hl.fresh id hold)

theorem enlist (hl : Ledger h) {job : Job} (hid : job.id = h.pool.nextJob) (late : List Nat) :
    Ledger { h with pool := h.pool.enlist job, entered := h.entered ++ [job], late } := by
  have hnumbers : ((h.entered ++ [job]).map Job.id ++ h.failed).Perm (h.pool.nextJob :: h.numbers) := by
    rw [List.map_append, List.append_assoc, ← hid]
    exact List.perm_middle
  obtain ⟨hids, hfresh⟩ := hl.numbered hnumbers
  constructor
  case ids => exact hids
  case fresh => exact hfresh
  case order =>
    have happend := hl.order.append (List.Sublist.refl [job])
    rwa [List.append_assoc] at happend
  case held => exact hl.held
  case single => exact hl.single

theorem breakOff (hl : Ledger h) (late : List Nat) :
    Ledger { h with
      pool := h.pool.register, failed := h.failed ++ [h.pool.nextJob], late } := by
  have hnumbers : (h.entered.map Job.id ++ (h.failed ++ [h.pool.nextJob])).Perm
      (h.pool.nextJob :: h.numbers) := by
    rw [← List.append_assoc]
    exact List.perm_append_singleton _ _
  obtain ⟨hids, hfresh⟩ := hl.numbered hnumbers
  exact ⟨hids, hfresh, hl.order, hl.held, hl.single⟩

theorem change (hl : Ledger h) (hchange : Change h h') : Ledger h' := by
  cases hchange with
  | pass | parse | heed | cancel | close =>
    exact hl.mono rfl rfl rfl rfl (List.Sublist.refl _) fun _ _ hw => hw
  | skip => exact hl.mono rfl rfl rfl rfl (List.dropWhile_suffix _).sublist fun _ _ hw => hw
  | give _ _ _ hqueue => exact hl.give hqueue
  | retire hslot _ =>
    rw [retire_eq hslot]
    split
    · exact hl.mono rfl rfl rfl rfl (List.nil_sublist _) fun _ _ hw => hw
    · exact hl.mono rfl rfl rfl rfl (List.Sublist.refl _) fun _ _ hw => hw
  | enlist hid => exact hl.enlist hid _
  | breakOff => exact hl.breakOff _
  | forget id => exact hl.mono rfl rfl rfl rfl List.filter_sublist fun _ _ hw => hw
  | answer _ _ _ =>
    obtain ⟨answers, hreply⟩ := h.pool.reply_eq _ _
    rw [hreply]
    refine hl.mono rfl rfl rfl rfl (List.Sublist.refl _) ?_
    intro id j hw
    rcases mem_assign.mp hw with ⟨-, hold⟩ | ⟨hnone, -⟩
    · exact hold
    · cases hnone
  | fail _ _ =>
    obtain ⟨answers, hreply⟩ := h.pool.reply_eq _ _
    rw [hreply]
    exact hl.mono rfl rfl rfl rfl (List.Sublist.refl _) fun _ _ hw => (List.mem_filter.mp hw).1
  | hangUp _ _ | disconnect _ _ _ =>
    exact hl.mono rfl rfl rfl rfl (List.Sublist.refl _) fun _ _ hw => (List.mem_filter.mp hw).1
  | respawn _ _ _ =>
    refine hl.mono rfl rfl rfl rfl (List.Sublist.refl _) ?_
    intro id j hw
    rcases List.mem_append.mp hw with hold | hnew
    · exact hold
    · cases List.mem_singleton.mp hnew
  | drain _ => exact hl.mono rfl rfl rfl rfl (List.nil_sublist _) fun _ _ hw => hw

end Ledger

/-! ### Callers that wait -/

def Waiting (h : History) : Prop :=
  ∀ id ∈ h.pool.waiters, id ∉ h.failed → ∃ j ∈ h.entered, j.id = id ∧ h.pool.Pending j

namespace Waiting

theorem mono (hw : Waiting h) (hentered : h'.entered = h.entered) (hfailed : h'.failed = h.failed)
    (hwaiters : h'.pool.waiters ⊆ h.pool.waiters)
    (hpending : ∀ j, j.id ∈ h'.pool.waiters → h.pool.Pending j → h'.pool.Pending j) : Waiting h' := by
  intro id hid hjob
  obtain ⟨j, hj, rfl, hwhere⟩ := hw id (hwaiters hid) (hfailed ▸ hjob)
  exact ⟨j, hentered ▸ hj, rfl, hpending j hid hwhere⟩

/-- The queue and the clock stay as they are, and so does every worker with a job that counts. -/
theorem of_workers (hw : Waiting h) (hentered : h'.entered = h.entered)
    (hfailed : h'.failed = h.failed)
    (hqueue : h'.pool.queue = h.pool.queue) (hnow : h'.pool.now = h.pool.now)
    (hwaiters : h'.pool.waiters ⊆ h.pool.waiters)
    (hworkers : ∀ id j, j.id ∈ h'.pool.waiters → ⟨id, some j⟩ ∈ h.pool.workers →
      Current h.pool.slots id → ⟨id, some j⟩ ∈ h'.pool.workers ∧ Current h'.pool.slots id) :
    Waiting h' := by
  refine hw.mono hentered hfailed hwaiters ?_
  rintro j hj (hinqueue | ⟨id, hworker, hcurrent⟩ | hdue)
  · exact .inl (hqueue ▸ hinqueue)
  · exact .inr (.inl ⟨id, hworkers id j hj hworker hcurrent⟩)
  · exact .inr (.inr (hnow ▸ hdue))

theorem of_waiters_nil (hnil : h.pool.waiters = []) : Waiting h := by
  intro id hid
  rw [hnil] at hid
  cases hid

theorem skip (hw : Waiting h) : Waiting { h with pool := h.pool.skip } := by
  refine hw.mono rfl rfl (List.Subset.refl _) ?_
  rintro j hj (hqueue | helse)
  · by_cases hdue : j.isOverdue h.pool.now = true
    · exact .inr (.inr hdue)
    · have hwanted : h.pool.isWanted j = true := by
        have hwaits : j.id ∈ h.pool.waiters := hj
        simp [isWanted, hwaits, hdue]
      rw [← List.takeWhile_append_dropWhile (p := fun j => !h.pool.isWanted j) (l := h.pool.queue)]
        at hqueue
      rcases List.mem_append.mp hqueue with hdropped | hkept
      · exact absurd (List.mem_takeWhile_imp hdropped) (by simp [hwanted])
      · exact .inl hkept
  · exact .inr helse

theorem give (hw : Waiting h) (hs : Staffed limit h) {i : Nat} {slot : Slot} {job : Job}
    {rest : List Job} (hslot : h.pool.slots[i]? = some slot) (hidle : slot.supervisor.state = .idle)
    (hline : slot.line = .connected) (hqueue : h.pool.queue = job :: rest) :
    Waiting { h with pool := h.pool.give i slot job rest } := by
  have hfree := (hs.wired i slot hslot).free hidle hline
  obtain ⟨hi, -⟩ := List.getElem?_eq_some_iff.mp hslot
  refine hw.mono rfl rfl (List.Subset.refl _) ?_
  rintro j - (hinqueue | ⟨id, hworker, hcurrent⟩ | hdue)
  · rcases List.mem_cons.mp (hqueue ▸ hinqueue) with rfl | hrest
    · have hgiven : (⟨⟨i, slot.epoch⟩, some j⟩ : Worker) ∈ (h.pool.give i slot j rest).workers :=
        mem_assign.mpr (.inr ⟨rfl, _, hfree, rfl⟩)
      exact .inr (.inl ⟨_, hgiven, _, List.getElem?_set_self hi, rfl⟩)
    · exact .inl hrest
  · refine .inr (.inl ⟨id, ?_, hcurrent.set hslot (.inl rfl)⟩)
    exact mem_assign.mpr (.inl ⟨hs.ne_of_free hworker hfree, hworker⟩)
  · exact .inr (.inr hdue)

theorem retire (hw : Waiting h) (hs : Staffed limit h) {i : Nat} {slot : Slot}
    (hslot : h.pool.slots[i]? = some slot)
    (hgone : slot.supervisor.state = .idle ∧ slot.line = .broken ∨ ⟨i, slot.epoch⟩ ∈ h.pool.exits) :
    Waiting { h with pool := h.pool.retire i } := by
  rw [retire_eq hslot]
  split
  · exact of_waiters_nil rfl
  · refine hw.of_workers rfl rfl rfl rfl (List.Subset.refl _) ?_
    intro id j _ hworker hcurrent
    refine ⟨hworker, hcurrent.set hslot (.inr ?_)⟩
    -- the worker that is written off had no job
    rintro rfl
    rcases hgone with ⟨-, hbroken⟩ | hended
    · rw [((hs.wired i slot hslot).busy j hworker).1] at hbroken
      cases hbroken
    · exact hs.apart _ hworker hended

theorem enlist (hw : Waiting h) {job : Job} (hid : job.id = h.pool.nextJob) (late : List Nat) :
    Waiting { h with pool := h.pool.enlist job, entered := h.entered ++ [job], late } := by
  intro id hwaits hjob
  rcases List.mem_append.mp hwaits with hold | hnew
  · obtain ⟨j, hj, hid, hwhere⟩ := hw id hold hjob
    refine ⟨j, List.mem_append_left _ hj, hid, ?_⟩
    rcases hwhere with hqueue | helse
    · exact .inl (List.mem_append_left _ hqueue)
    · exact .inr helse
  · have hlast {js : List Job} : job ∈ js ++ [job] := List.mem_append_right _ (List.mem_singleton.mpr rfl)
    exact ⟨job, hlast, hid.trans (List.mem_singleton.mp hnew).symm, .inl hlast⟩

theorem breakOff (hw : Waiting h) (late : List Nat) :
    Waiting { h with
      pool := h.pool.register, failed := h.failed ++ [h.pool.nextJob], late } := by
  intro id hwaits hjob
  rcases List.mem_append.mp hwaits with hold | hnew
  · exact hw id hold fun hfailed => hjob (List.mem_append_left _ hfailed)
  · exact absurd (List.mem_append_right _ hnew) hjob

theorem forget (hw : Waiting h) (id : Nat) : Waiting { h with pool := h.pool.forget id } := by
  refine hw.mono rfl rfl List.filter_sublist.subset ?_
  rintro j hj (hqueue | helse)
  · exact .inl (List.mem_filter.mpr ⟨hqueue, (List.mem_filter.mp hj).2⟩)
  · exact .inr helse

/-- The worker that reports is not the one that somebody else waits for. -/
theorem ne_of_reported (hs : Staffed limit h) {p : Parse} (hp : p ∈ h.unreported) {id : WorkerId}
    {j : Job} (hworker : ⟨id, some j⟩ ∈ h.pool.workers) (hj : j.id ≠ p.job.id) : id ≠ p.worker := by
  rintro rfl
  cases hs.eq_of_id hworker (hs.reporting p hp) rfl
  exact hj rfl

theorem answer (hw : Waiting h) (hs : Staffed limit h) {n : Nat} {p : Parse} {slot : Slot}
    (hp : h.unreported[n]? = some p) (hslot : h.pool.slotOf? p.worker = some slot) :
    Waiting { h with
      pool := (h.pool.reply p.job.id p.outcome.tree?).release p.worker slot
      unreported := h.unreported.eraseIdx n
      reported := h.reported ++ [p] } := by
  obtain ⟨answers, hreply⟩ := h.pool.reply_eq p.job.id p.outcome.tree?
  rw [hreply]
  refine hw.of_workers rfl rfl rfl rfl List.filter_sublist.subset ?_
  intro id j hj hworker hcurrent
  have hother := ne_of_reported hs (List.mem_of_getElem? hp) hworker
    (of_decide_eq_true (List.mem_filter.mp hj).2)
  exact ⟨mem_assign.mpr (.inl ⟨hother, hworker⟩), hcurrent.set (slotOf?_eq_some.mp hslot).1 (.inl rfl)⟩

theorem fail (hw : Waiting h) (hs : Staffed limit h) {n : Nat} {p : Parse}
    (hp : h.unreported[n]? = some p) :
    Waiting { h with
      pool := (h.pool.reply p.job.id p.outcome.tree?).leave p.worker
      unreported := h.unreported.eraseIdx n
      reported := h.reported ++ [p] } := by
  obtain ⟨answers, hreply⟩ := h.pool.reply_eq p.job.id p.outcome.tree?
  rw [hreply]
  refine hw.of_workers rfl rfl rfl rfl List.filter_sublist.subset ?_
  intro id j hj hworker hcurrent
  have hother := ne_of_reported hs (List.mem_of_getElem? hp) hworker
    (of_decide_eq_true (List.mem_filter.mp hj).2)
  exact ⟨List.mem_filter.mpr ⟨hworker, decide_eq_true hother⟩, hcurrent⟩

theorem change (hw : Waiting h) (hs : Staffed limit h) (hchange : Change h h') : Waiting h' := by
  cases hchange with
  | parse | heed | cancel | close => exact hw
  | pass _ _ _ _ hnow =>
    refine hw.mono rfl rfl (List.Subset.refl _) ?_
    rintro j - (hqueue | hheld | hdue)
    · exact .inl hqueue
    · exact .inr (.inl hheld)
    · exact .inr (.inr (isOverdue_mono hnow hdue))
  | skip => exact hw.skip
  | give hslot hidle hline hqueue => exact hw.give hs hslot hidle hline hqueue
  | retire hslot hgone => exact hw.retire hs hslot hgone
  | enlist hid => exact hw.enlist hid _
  | breakOff => exact hw.breakOff _
  | forget id => exact hw.forget id
  | answer hp hslot _ => exact hw.answer hs hp hslot
  | fail hp _ => exact hw.fail hs hp
  | hangUp hhung _ =>
    refine hw.of_workers rfl rfl rfl rfl (List.Subset.refl _) ?_
    intro id j _ hworker hcurrent
    exact ⟨List.mem_filter.mpr ⟨hworker, decide_eq_true (hs.ne_of_free hworker hhung)⟩, hcurrent⟩
  | respawn hr _ hslot =>
    refine hw.of_workers rfl rfl rfl rfl (List.Subset.refl _) ?_
    intro id j _ hworker hcurrent
    refine ⟨List.mem_append_left _ hworker, hcurrent.set hslot (.inr ?_)⟩
    rintro rfl
    have hwired := hs.wired _ _ hslot
    have hexited := (hwired.exited_of_due hr rfl).1
    rw [(hwired.busy j hworker).2] at hexited
    cases hexited
  | disconnect hslot hidle hline =>
    have hfree := (hs.wired _ _ hslot).free hidle hline
    refine hw.of_workers rfl rfl rfl rfl (List.Subset.refl _) ?_
    intro id j _ hworker hcurrent
    refine ⟨List.mem_filter.mpr ⟨hworker, decide_eq_true (hs.ne_of_free hworker hfree)⟩, ?_⟩
    exact hcurrent.set hslot (.inl rfl)
  | drain _ => exact of_waiters_nil rfl

end Waiting

/-! ### Parsing once -/

structure Parses (h : History) : Prop where
  handed : ∀ p ∈ h.parses, p.job ∈ h.pool.handed
  unreported : ∀ p ∈ h.parses, ∀ id, ⟨id, some p.job⟩ ∈ h.pool.workers → p ∈ h.unreported
  once : (h.parses.map fun p => p.job.id).Nodup

namespace Parses

theorem mono (hp : Parses h) (hparses : h'.parses = h.parses)
    (hhanded : h.pool.handed ⊆ h'.pool.handed)
    (hunreported : ∀ p ∈ h.parses, ∀ id, ⟨id, some p.job⟩ ∈ h'.pool.workers → p ∈ h'.unreported) :
    Parses h' := by
  constructor
  case handed => exact fun p hmem => hhanded (hp.handed p (hparses ▸ hmem))
  case unreported => exact fun p hmem => hunreported p (hparses ▸ hmem)
  case once => exact hparses ▸ hp.once

theorem worker_eq (hp : Parses h) (hl : Ledger h) (hs : Staffed limit h) {p : Parse}
    (hmem : p ∈ h.parses) {id : WorkerId} (hworker : ⟨id, some p.job⟩ ∈ h.pool.workers) :
    p.worker = id :=
  hl.single _ _ _ (hs.reporting p (hp.unreported p hmem id hworker)) hworker

theorem report (hp : Parses h) (hl : Ledger h) (hs : Staffed limit h) {n : Nat} {p : Parse}
    (hreport : h.unreported[n]? = some p) (hparses : h'.parses = h.parses)
    (hhanded : h'.pool.handed = h.pool.handed) (hunreported : h'.unreported = h.unreported.eraseIdx n)
    (hworkers : ∀ id j, ⟨id, some j⟩ ∈ h'.pool.workers → id ≠ p.worker ∧ ⟨id, some j⟩ ∈ h.pool.workers) :
    Parses h' := by
  refine hp.mono hparses (hhanded ▸ List.Subset.refl _) ?_
  intro q hq id hworker
  obtain ⟨hne, hworker⟩ := hworkers id q.job hworker
  obtain ⟨hn, hat⟩ := List.getElem?_eq_some_iff.mp hreport
  have hmem : q ∈ h.unreported := hp.unreported q hq id hworker
  rw [← (List.getElem_cons_eraseIdx_perm hn).mem_iff, hat, List.mem_cons] at hmem
  rw [hunreported]
  refine hmem.resolve_left ?_
  rintro rfl
  exact hne (hp.worker_eq hl hs hq hworker).symm

theorem parse (hp : Parses h) (hl : Ledger h) (hs : Staffed limit h) {id : WorkerId} {job : Job}
    (outcome : ParseOutcome) (hworker : ⟨id, some job⟩ ∈ h.pool.workers)
    (hnew : ∀ p ∈ h.unreported, p.worker ≠ id) :
    Parses { h with
      parses := h.parses ++ [⟨id, job, outcome⟩]
      unreported := h.unreported ++ [⟨id, job, outcome⟩] } := by
  constructor
  case handed =>
    intro p hmem
    rcases List.mem_append.mp hmem with hold | hlast
    · exact hp.handed p hold
    · rw [List.mem_singleton.mp hlast]
      exact hl.held id job hworker
  case unreported =>
    intro p hmem other hother
    rcases List.mem_append.mp hmem with hold | hlast
    · exact List.mem_append_left _ (hp.unreported p hold other hother)
    · exact List.mem_append_right _ hlast
  case once =>
    rw [List.map_append, List.nodup_append]
    refine ⟨hp.once, List.nodup_singleton _, ?_⟩
    intro a ha b hb heq
    obtain ⟨p, hmem, rfl⟩ := List.mem_map.mp ha
    have hid : p.job.id = job.id := heq.trans (List.mem_singleton.mp hb)
    have hjob : p.job = job := List.inj_on_of_nodup_map hl.nodup_entered (hl.handed_subset (hp.handed p hmem))
      (hl.handed_subset (hl.held id job hworker)) hid
    rw [← hjob] at hworker
    exact hnew p (hp.unreported p hmem id hworker) (hp.worker_eq hl hs hmem hworker)

theorem change (hp : Parses h) (hl : Ledger h) (hs : Staffed limit h) (hchange : Change h h') :
    Parses h' := by
  cases hchange with
  | pass | skip | enlist | breakOff | forget | heed | cancel | close | drain =>
    exact hp.mono rfl (List.Subset.refl _) hp.unreported
  | give _ _ _ hqueue =>
    refine hp.mono rfl (List.subset_append_left _ _) ?_
    intro p hmem id hworker
    rcases mem_assign.mp hworker with ⟨-, hold⟩ | ⟨heq, -⟩
    · exact hp.unreported p hmem id hold
    · have hjob := Option.some.inj (Worker.mk.inj heq).2
      exact absurd (hjob ▸ hp.handed p hmem) (hl.not_handed (by simp [hqueue]))
  | retire hslot _ =>
    rw [retire_eq hslot]
    split <;> exact hp.mono rfl (List.Subset.refl _) hp.unreported
  | parse outcome hworker hnew => exact hp.parse hl hs outcome hworker hnew
  | answer hreport _ _ =>
    obtain ⟨answers, hreply⟩ := h.pool.reply_eq _ _
    rw [hreply]
    refine hp.report hl hs hreport rfl rfl rfl ?_
    intro id j hworker
    rcases mem_assign.mp hworker with hold | ⟨heq, -⟩
    · exact hold
    · cases heq
  | fail hreport _ =>
    obtain ⟨answers, hreply⟩ := h.pool.reply_eq _ _
    rw [hreply]
    refine hp.report hl hs hreport rfl rfl rfl ?_
    intro id j hworker
    obtain ⟨hold, hne⟩ := List.mem_filter.mp hworker
    exact ⟨of_decide_eq_true hne, hold⟩
  | hangUp _ _ | disconnect _ _ _ =>
    refine hp.mono rfl (List.Subset.refl _) ?_
    exact fun p hmem id hworker => hp.unreported p hmem id (List.mem_filter.mp hworker).1
  | respawn _ _ _ =>
    refine hp.mono rfl (List.Subset.refl _) ?_
    intro p hmem id hworker
    rcases List.mem_append.mp hworker with hold | hnew
    · exact hp.unreported p hmem id hold
    · cases List.mem_singleton.mp hnew

end Parses

/-! ### Runs -/

open Execution (Move)

structure Conserved (limit : Nat) (h : History) : Prop where
  staffed : Staffed limit h
  ledger : Ledger h
  waiting : Waiting h
  parses : Parses h

theorem Conserved.change (hc : Conserved limit h) (hchange : Change h h') : Conserved limit h' :=
  ⟨hc.staffed.change hchange, hc.ledger.change hchange, hc.waiting.change hc.staffed hchange,
    hc.parses.change hc.ledger hc.staffed hchange⟩

theorem conserved_run (s : ParseSettings) (ms : List Move) :
    Conserved s.restart.maxFailures ((start s).run ms) := by
  refine run_induction (fun hc hchange => hc.change hchange) ?_ ms
  constructor
  case staffed => exact staffed_start s
  case ledger => constructor <;> simp [numbers, start, Execution.start, start_eq]
  case waiting => exact Waiting.of_waiters_nil (by simp [start, Execution.start, start_eq])
  case parses => constructor <;> simp [start, Execution.start]

/-! ### Callers that fail -/

theorem hasFailed_step (c : Call) (p : Pool) : (c.step p).1.hasFailed =
    (c.hasFailed || c.isEntering && (p.nextJob? c.text c.dialect c.timeout).isNone) := by
  cases hstage : c.stage with
  | looking =>
    simp only [Call.step, hstage]
    split
    · simp [Call.hasFailed, Call.isEntering, hstage]
    · split <;> simp [Call.hasFailed, Call.isEntering, hstage]
  | checking =>
    simp only [Call.step, hstage]
    split <;> simp [Call.hasFailed, Call.isEntering, hstage]
  | entering =>
    cases hjob : p.nextJob? c.text c.dialect c.timeout <;>
      simp [Call.step, Pool.enter, Call.hasFailed, Call.isEntering, hstage, hjob]
  | waiting id =>
    simp only [Call.step, hstage]
    split <;> simp [Call.hasFailed, Call.isEntering, hstage]
  | failed | storing answer | returned answer =>
    simp [Call.step, Call.hasFailed, Call.isEntering, hstage]

theorem hasFailed_of_isEntering {c : Call} (h : c.isEntering = true) : c.hasFailed = false := by
  rw [Call.isEntering] at h
  split at h
  · rename_i hstage
    simp [Call.hasFailed, hstage]
  · cases h

theorem timeout_step (c : Call) (p : Pool) : (c.step p).1.timeout = c.timeout := by
  rw [Call.step]
  repeat' split
  all_goals rfl

theorem expire_same (c : Call) (p : Pool) :
    (c.expire p).1.hasFailed = c.hasFailed ∧ (c.expire p).1.timeout = c.timeout := by
  rw [Call.expire]
  split
  · rename_i hstage
    simp [Call.hasFailed, hstage]
  · exact ⟨rfl, rfl⟩

theorem now_change (hchange : Change h h') : h.pool.now ≤ h'.pool.now := by
  cases hchange with
  | pass _ _ _ _ hnow => exact hnow
  | retire hslot _ =>
    rw [retire_eq hslot]
    split <;> exact Nat.le_refl _
  | answer _ _ _ | fail _ _ =>
    obtain ⟨answers, hreply⟩ := h.pool.reply_eq _ _
    rw [hreply]
    exact Nat.le_refl _
  | skip | give | enlist | breakOff | forget | parse | hangUp | heed | respawn | cancel | disconnect
  | close | drain => exact Nat.le_refl _

theorem now_move (h : History) (m : Move) : h.pool.now ≤ (h.move m).pool.now := by
  have hchanges := h.changes_move m
  generalize h.move m = g at hchanges ⊢
  induction hchanges with
  | refl => exact Nat.le_refl _
  | tail _ hlast ih => exact Nat.le_trans ih (now_change hlast)

/-- The numbers that were given out in vain went to callers whose time would be up after the end of
the clock, one to each. -/
structure Overstays (h : History) : Prop where
  count : h.calls.countP Call.hasFailed = h.failed.length
  late : ∀ c ∈ h.calls, c.hasFailed = true → clockEnd ≤ h.pool.now + c.timeout.count

namespace Overstays

theorem mono (ho : Overstays h) (hcalls : h'.calls = h.calls) (hfailed : h'.failed = h.failed)
    (hnow : h.pool.now ≤ h'.pool.now) : Overstays h' := by
  constructor
  case count => rw [hcalls, hfailed, ho.count]
  case late =>
    rw [hcalls]
    exact fun c hc hf => Nat.le_trans (ho.late c hc hf) (Nat.add_le_add_right hnow _)

theorem late_set (ho : Overstays h) {i : Nat} {d : Call} (hcalls : h'.calls = h.calls.set i d)
    (hlate : d.hasFailed = true → clockEnd ≤ h.pool.now + d.timeout.count)
    (hnow : h.pool.now ≤ h'.pool.now) :
    ∀ c ∈ h'.calls, c.hasFailed = true → clockEnd ≤ h'.pool.now + c.timeout.count := by
  rw [hcalls]
  intro c hc hf
  refine Nat.le_trans ?_ (Nat.add_le_add_right hnow _)
  rcases List.mem_or_eq_of_mem_set hc with hold | rfl
  · exact ho.late c hold hf
  · exact hlate hf

/-- A caller takes a turn in which it does not fail. -/
theorem pass (ho : Overstays h) {i : Nat} {c d : Call} (hc : h.calls[i]? = some c)
    (hcalls : h'.calls = h.calls.set i d) (hfailed : h'.failed = h.failed)
    (hsame : d.hasFailed = c.hasFailed ∧ d.timeout = c.timeout) (hnow : h.pool.now ≤ h'.pool.now) :
    Overstays h' := by
  obtain ⟨hi, hat⟩ := List.getElem?_eq_some_iff.mp hc
  have hmem : c ∈ h.calls := List.mem_of_getElem? hc
  constructor
  case count =>
    rw [hcalls, hfailed, List.countP_set hi, hat, hsame.1, ← ho.count]
    split
    · rename_i hf
      exact Nat.sub_add_cancel (List.countP_pos_iff.mpr ⟨c, hmem, hf⟩)
    · rfl
  case late =>
    refine ho.late_set hcalls ?_ hnow
    rw [hsame.1, hsame.2]
    exact ho.late c hmem

theorem fail (ho : Overstays h) {i id : Nat} {c d : Call} (hc : h.calls[i]? = some c)
    (hcalls : h'.calls = h.calls.set i d) (hfailed : h'.failed = h.failed ++ [id])
    (hnew : c.hasFailed = false ∧ d.hasFailed = true)
    (hlate : clockEnd ≤ h.pool.now + d.timeout.count) (hnow : h.pool.now ≤ h'.pool.now) :
    Overstays h' := by
  obtain ⟨hi, hat⟩ := List.getElem?_eq_some_iff.mp hc
  constructor
  case count =>
    rw [hcalls, hfailed, List.countP_set hi, hat, hnew.1, hnew.2, ho.count, List.length_append]
    rfl
  case late => exact ho.late_set hcalls (fun _ => hlate) hnow

theorem proceed (ho : Overstays h) (i : Nat) : Overstays (h.move (.proceed i)) := by
  have hnow := now_move h (.proceed i)
  cases hc : h.calls[i]? with
  | none =>
    refine ho.mono ?_ ?_ hnow
    · simp [History.move, Execution.move, Execution.turn, hc]
    · simp [History.move, Execution.entry?, Execution.number?, Execution.entrant?, hc]
  | some c =>
    have hcalls : (h.move (.proceed i)).calls = h.calls.set i (c.step h.pool).1 := by
      simp [History.move, Execution.move, Execution.turn, hc]
    have hentrant : h.entrant? (.proceed i) = if c.isEntering then some c else none := by
      rw [Execution.entrant?, hc, Option.filter_some]
    have hstep := hasFailed_step c h.pool
    have htimeout := timeout_step c h.pool
    cases hentering : c.isEntering with
    | false =>
      rw [hentering] at hentrant hstep
      refine ho.pass hc hcalls ?_ ⟨by simpa using hstep, htimeout⟩ hnow
      simp [History.move, Execution.entry?, Execution.number?, hentrant]
    | true =>
      rw [hentering] at hentrant hstep
      cases hjob : h.pool.nextJob? c.text c.dialect c.timeout with
      | some job =>
        refine ho.pass hc hcalls ?_ ⟨by simpa [hjob] using hstep, htimeout⟩ hnow
        simp [History.move, Execution.entry?, hentrant, hjob]
      | none =>
        have hfailed : (h.move (.proceed i)).failed = h.failed ++ [h.pool.nextJob] := by
          simp [History.move, Execution.entry?, Execution.number?, hentrant, hjob]
        refine ho.fail hc hcalls hfailed ⟨?_, ?_⟩ ?_ hnow
        · exact hasFailed_of_isEntering hentering
        · simpa [hjob] using hstep
        · exact htimeout ▸ nextJob?_eq_none hjob

theorem move (ho : Overstays h) (m : Move) : Overstays (h.move m) := by
  have hnow := now_move h m
  cases m with
  | proceed i => exact ho.proceed i
  | expire i =>
    have hfailed : (h.move (.expire i)).failed = h.failed := List.append_nil _
    cases hc : h.calls[i]? with
    | none => exact ho.mono (by simp [History.move, Execution.move, Execution.turn, hc]) hfailed hnow
    | some c =>
      refine ho.pass hc ?_ hfailed (expire_same c h.pool) hnow
      simp [History.move, Execution.move, Execution.turn, hc]
  | submit text dialect timeout =>
    have hfailed : (h.move (.submit text dialect timeout)).failed = h.failed := List.append_nil _
    have hcalls : (h.move (.submit text dialect timeout)).calls =
        h.calls ++ [({ text, dialect, timeout } : Call)] := rfl
    constructor
    case count =>
      rw [hcalls, hfailed, List.countP_append, ho.count]
      rfl
    case late =>
      rw [hcalls]
      intro c hc hf
      rcases List.mem_append.mp hc with hc | hnew
      · exact ho.late c hc hf
      · rw [List.mem_singleton.mp hnew] at hf
        cases hf
  | disconnect | wait | age => exact ho.mono rfl (List.append_nil _) hnow
  | parse | report | hangUp | notice | exit | respawn | close | drain =>
    refine ho.mono ?_ (List.append_nil _) hnow
    simp only [History.move, Execution.move]
    repeat' split
    all_goals rfl

end Overstays

theorem overstays_run (s : ParseSettings) (ms : List Move) : Overstays ((start s).run ms) := by
  have hstart : Overstays (start s) := ⟨rfl, fun c hc => absurd hc List.not_mem_nil⟩
  rw [run]
  generalize start s = h at hstart ⊢
  induction ms generalizing h with
  | nil => exact hstart
  | cons m ms ih => exact ih (h.move m) (hstart.move m)

/-! ### Conservation -/

/-- Where a job is while its caller waits: in the queue once, or at one worker that is busy, unless its
time is up. -/
inductive Whereabouts (p : Pool) (j : Job) : Prop where
  | queued (once : p.queue.count j = 1) (unheld : ∀ w ∈ p.workers, w.job ≠ some j)
  | held (unqueued : j ∉ p.queue) {w : Worker} (worker : w ∈ p.workers) (job : w.job = some j)
      {slot : Slot} (current : p.slotOf? w.id = some slot) (busy : slot.supervisor.state = .busy)
      (alone : ∀ v ∈ p.workers, v.job = some j → v = w)
  | overdue (due : j.isOverdue p.now = true)

theorem Conserved.whereabouts (hc : Conserved limit h) {id : Nat} (hid : id ∈ h.pool.waiters)
    (hjob : id ∉ h.failed) : ∃ j ∈ h.entered, j.id = id ∧ Whereabouts h.pool j := by
  obtain ⟨j, hj, rfl, hwhere⟩ := hc.waiting id hid hjob
  refine ⟨j, hj, rfl, ?_⟩
  rcases hwhere with hqueue | ⟨id, hworker, slot, hslot, hepoch⟩ | hdue
  · have hnodup := (List.nodup_append.mp hc.ledger.nodup).2.1
    refine .queued (List.count_eq_one_of_mem hnodup hqueue) ?_
    rintro ⟨id, job⟩ hw rfl
    exact hc.ledger.not_handed hqueue (hc.ledger.held id j hw)
  · have hslot := slotOf?_eq_some.mpr ⟨hslot, hepoch⟩
    refine .held ?_ hworker rfl hslot (hc.staffed.busy hworker hslot).2 ?_
    · exact fun hqueue => hc.ledger.not_handed hqueue (hc.ledger.held id j hworker)
    · rintro ⟨other, job⟩ hv rfl
      rw [hc.ledger.single other id j hv hworker]
  · exact .overdue hdue

/-- No job is lost, duplicated or overtaken. -/
structure Orderly (h : History) : Prop where
  numbers : h.numbers.Nodup
  waiting : ∀ id ∈ h.pool.waiters, id ∉ h.failed → ∃ j ∈ h.entered, j.id = id ∧ Whereabouts h.pool j
  failed : Overstays h
  parsed : (h.parses.map fun p => p.job.id).Nodup
  order : (h.pool.handed ++ h.pool.queue).Sublist h.entered
  busy : h.pool.queue ≠ [] → ∀ slot ∈ h.pool.slots, ¬ slot.Free

/-- Every run is orderly. The only callers that are registered without a job are those that overstay. -/
theorem jobs_conserved (s : ParseSettings) (ms : List Move) : Orderly ((start s).run ms) := by
  have hc := conserved_run s ms
  constructor
  case numbers => exact hc.ledger.ids
  case waiting => exact fun id hid hjob => hc.whereabouts hid hjob
  case failed => exact overstays_run s ms
  case parsed => exact hc.parses.once
  case order => exact hc.ledger.order
  case busy =>
    have hsettled := Execution.settled_run s ms
    have hrun : ((start s).run ms).toExecution = (Execution.start s).run ms :=
      toExecution_run (start s) ms
    rw [← hrun] at hsettled
    exact hsettled

/-- A caller who waits for as long as can be said stays registered when it has failed, and its job was
never there. -/
theorem waiting_without_job :
    let h := (start { poolSize := 1 }).run
      [.submit [] .tsql .longest, .proceed 0, .proceed 0, .proceed 0]
    h.pool.isShutdown = false ∧ h.pool.waiters = [1] ∧ h.entered = [] ∧ h.pool.queue = [] ∧
      ∀ w ∈ h.pool.workers, w.job = none := by
  decide +kernel

/-- The first job finds its worker out of reach and goes back to the front of the queue; the next
worker gets it before the second job. -/
example :
    let h := (start { poolSize := 1 }).run
      [.submit [] .tsql 1000, .proceed 0, .proceed 0, .submit [] .tsql 1000, .proceed 1, .proceed 1,
        .disconnect 0, .proceed 0, .proceed 1, .respawn 0]
    h.pool.handed.map Job.id = [1] ∧ h.pool.queue.map Job.id = [2] ∧ h.pool.waiters = [1, 2] := by
  decide +kernel

end History

end Pool

end SqlAtlas
