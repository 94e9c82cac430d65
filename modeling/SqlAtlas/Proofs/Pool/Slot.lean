import Mathlib.Data.List.Count
import SqlAtlas.Proofs.Pool.History

/-!
# One slot of a pool

Whether a slot has a worker is written down in several places: the supervisor says what the worker is
doing, the slot has a line to it, the worker is in the list of workers or has ended, and a new worker
may be due. `Books` says how a supervisor keeps its counts, and `Wired` how the places fit together.
What happens to a slot keeps both.
-/

namespace SqlAtlas

set_option autoImplicit false

/-! ### Counts of a supervisor -/

/-- The counts of a supervisor that gives up at `limit` failures, when its workers have answered
`answered` jobs. -/
structure Supervisor.Books (limit answered : Nat) (s : Supervisor) : Prop where
  policy : s.policy.maxFailures = limit
  bounded : s.failures ≤ max limit 1
  spare : s.degraded = false → s.failures < max limit 1
  gone : s.degraded = true → s.state = .exited
  attempts : s.spawnAttempts ≤ s.failures + answered + if s.state = .exited then 0 else 1

namespace Supervisor.Books

variable {limit answered : Nat} {s : Supervisor}

theorem mono (h : Books limit answered s) {answered' : Nat} (hle : answered ≤ answered') :
    Books limit answered' s := by
  obtain ⟨hpolicy, hbounded, hspare, hgone, hattempts⟩ := h
  exact ⟨hpolicy, hbounded, hspare, hgone, by omega⟩

theorem not_degraded (h : Books limit answered s) (hstate : s.state ≠ .exited) :
    s.degraded = false := by
  cases hd : s.degraded with
  | false => rfl
  | true => exact absurd (h.gone hd) hstate

theorem dispatched (h : Books limit answered s) (hidle : s.state = .idle) :
    Books limit answered s.dispatched := by
  have hd := h.not_degraded (by simp [hidle])
  constructor
  case policy => exact h.policy
  case bounded => exact h.bounded
  case spare => exact h.spare
  case gone => simp [Supervisor.dispatched, hd]
  case attempts => simpa [Supervisor.dispatched, hidle] using h.attempts

/-- An answer takes one failure back and is counted, so that nothing is lost between the two. -/
theorem succeeded (h : Books limit answered s) (hbusy : s.state = .busy) :
    Books limit (answered + 1) s.succeeded := by
  have hd := h.not_degraded (by simp [hbusy])
  have hattempts := h.attempts
  have hspare := h.spare hd
  constructor
  case policy => exact h.policy
  case bounded => exact Nat.le_trans (Nat.sub_le _ _) h.bounded
  case spare => exact fun _ => Nat.lt_of_le_of_lt (Nat.sub_le _ _) hspare
  case gone => simp [Supervisor.succeeded, hd]
  case attempts =>
    simp [Supervisor.succeeded, hbusy] at hattempts ⊢
    omega

theorem exited (h : Books limit answered s) (hstate : s.state ≠ .exited) :
    Books limit answered s.exited.2 := by
  have hspare := h.spare (h.not_degraded hstate)
  constructor
  case policy => rw [exited_policy, h.policy]
  case bounded =>
    rw [exited_failures]
    omega
  case spare =>
    intro hd
    rw [exited_degraded, Bool.or_eq_false_iff, decide_eq_false_iff_not, h.policy] at hd
    rw [exited_failures]
    omega
  case gone => simp
  case attempts =>
    have hattempts := h.attempts
    rw [if_neg hstate] at hattempts
    simp only [exited_spawnAttempts, exited_failures, exited_state, if_true]
    omega

theorem respawned (h : Books limit answered s) (hexited : s.state = .exited)
    (hd : s.degraded = false) : Books limit answered s.attemptSpawn.spawned := by
  have hattempts := h.attempts
  constructor
  case policy => exact h.policy
  case bounded => exact h.bounded
  case spare => exact h.spare
  case gone => simp [spawned, attemptSpawn, hd]
  case attempts =>
    simp [hexited] at hattempts
    simp [spawned, attemptSpawn]
    omega

end Supervisor.Books

namespace Pool

/-! ### Lists of workers -/

theorem mem_assign {ws : List Worker} {id : WorkerId} {job : Option Job} {w : Worker} :
    w ∈ assign ws id job ↔
      (w.id ≠ id ∧ w ∈ ws) ∨ (w = ⟨id, job⟩ ∧ ∃ v ∈ ws, v.id = id) := by
  rw [assign, List.mem_map]
  constructor
  · rintro ⟨v, hv, rfl⟩
    by_cases h : v.id = id
    · exact .inr ⟨by simp [h], v, hv, h⟩
    · exact .inl (by simp [h, hv])
  · rintro (⟨hne, hw⟩ | ⟨rfl, v, hv, rfl⟩)
    · exact ⟨w, hw, by simp [hne]⟩
    · exact ⟨v, hv, by simp⟩

theorem exists_of_mem_assign {ws : List Worker} {id : WorkerId} {job : Option Job} {w : Worker}
    (h : w ∈ assign ws id job) : ∃ v ∈ ws, v.id = w.id := by
  rcases mem_assign.mp h with ⟨-, hw⟩ | ⟨rfl, v, hv, hid⟩
  · exact ⟨w, hw, rfl⟩
  · exact ⟨v, hv, hid⟩

theorem ids_assign (ws : List Worker) (id : WorkerId) (job : Option Job) :
    (assign ws id job).map Worker.id = ws.map Worker.id := by
  rw [assign, List.map_map]
  apply List.map_congr_left
  intro w _
  dsimp only [Function.comp]
  split <;> rfl

theorem getElem?_set_cases {slots : List Slot} {i k : Nat} {s t : Slot}
    (h : (slots.set i s)[k]? = some t) : (k = i ∧ t = s) ∨ (k ≠ i ∧ slots[k]? = some t) := by
  by_cases hk : i = k
  · subst hk
    rw [List.getElem?_set] at h
    split at h
    · split at h
      · exact .inl ⟨rfl, (Option.some.inj h).symm⟩
      · cases h
    · contradiction
  · rw [List.getElem?_set_ne hk] at h
    exact .inr ⟨Ne.symm hk, h⟩

/-- What holds of a slot holds of it after one slot has changed, if it holds of the new one in case
it is that slot. -/
theorem exists_getElem?_set {slots : List Slot} {P : Slot → Prop} {k : Nat}
    (h : ∃ t, slots[k]? = some t ∧ P t) {i : Nat} {s s' : Slot} (hs : slots[i]? = some s)
    (hkeeps : i = k → P s → P s') : ∃ t, (slots.set i s')[k]? = some t ∧ P t := by
  obtain ⟨t, ht, hold⟩ := h
  obtain ⟨hi, -⟩ := List.getElem?_eq_some_iff.mp hs
  by_cases hik : i = k
  · subst hik
    obtain rfl := Option.some.inj (hs.symm.trans ht)
    exact ⟨s', List.getElem?_set_self hi, hkeeps rfl hold⟩
  · exact ⟨t, by rw [List.getElem?_set_ne hik, ht], hold⟩

/-! ### Wiring of a slot -/

def dueAt (respawns : List Respawn) (i : Nat) : Nat := respawns.countP fun r => decide (r.slot = i)

/-- A slot with what else is known about it. A drained pool has no lines; before that, a slot has a
line exactly when its worker is live. -/
structure Wired (drained closed : Bool) (workers : List Worker) (exits : List WorkerId)
    (respawns : List Respawn) (i : Nat) (s : Slot) : Prop where
  cut : drained = true → s.line = .absent
  line : drained = false → (s.line ≠ .absent ↔ s.supervisor.isLive = true)
  free : s.supervisor.state = .idle → s.line = .connected → ⟨⟨i, s.epoch⟩, none⟩ ∈ workers
  busy : ∀ job, ⟨⟨i, s.epoch⟩, some job⟩ ∈ workers → s.line = .connected ∧ s.supervisor.state = .busy
  ended : ⟨i, s.epoch⟩ ∈ exits → s.line = .connected ∧ s.supervisor.state = .busy
  vacant : s.supervisor.state ≠ .exited ∨ s.supervisor.degraded = true → dueAt respawns i = 0
  due : s.supervisor.state = .exited → s.supervisor.degraded = false →
    dueAt respawns i ≤ 1 ∧ (closed = false → dueAt respawns i = 1)

theorem dueAt_erase_ne {rs : List Respawn} {r : Respawn} {i : Nat} (h : r.slot ≠ i) :
    dueAt (rs.erase r) i = dueAt rs i := by
  rw [dueAt, List.countP_erase, if_neg (by simp [h]), Nat.sub_zero, dueAt]

theorem dueAt_append_due_ne {rs : List Respawn} {i k : Nat} (h : k ≠ i) (d : ExitDecision) :
    dueAt (rs ++ d.due i) k = dueAt rs k := by
  cases d <;> simp [dueAt, ExitDecision.due, Ne.symm h]

namespace Wired

variable {drained closed : Bool} {ws : List Worker} {exits : List WorkerId} {rs : List Respawn}
  {i : Nat} {s : Slot}

theorem frame (h : Wired drained closed ws exits rs i s) {closed' : Bool} {ws' : List Worker}
    {exits' : List WorkerId} {rs' : List Respawn} (hclosed : closed' = false → closed = false)
    (hworkers : ∀ job, ⟨⟨i, s.epoch⟩, job⟩ ∈ ws' ↔ ⟨⟨i, s.epoch⟩, job⟩ ∈ ws)
    (hexits : ⟨i, s.epoch⟩ ∈ exits' → ⟨i, s.epoch⟩ ∈ exits) (hdue : dueAt rs' i = dueAt rs i) :
    Wired drained closed' ws' exits' rs' i s := by
  constructor
  case cut => exact h.cut
  case line => exact h.line
  case free => exact fun hidle hline => (hworkers none).mpr (h.free hidle hline)
  case busy => exact fun job hw => h.busy job ((hworkers (some job)).mp hw)
  case ended => exact fun he => h.ended (hexits he)
  case vacant => rw [hdue]; exact h.vacant
  case due =>
    rw [hdue]
    intro hstate hd
    obtain ⟨hle, hopen⟩ := h.due hstate hd
    exact ⟨hle, fun hc => hopen (hclosed hc)⟩

theorem not_drained (h : Wired drained closed ws exits rs i s) (hline : s.line ≠ .absent) :
    drained = false := by
  cases drained with
  | false => rfl
  | true => exact absurd (h.cut rfl) hline

theorem give (h : Wired drained closed ws exits rs i s) (hidle : s.supervisor.state = .idle)
    (hline : s.line = .connected) (job : Job) :
    Wired drained closed (assign ws ⟨i, s.epoch⟩ (some job)) exits rs i
      { s with supervisor := s.supervisor.dispatched } := by
  have hopen := h.not_drained (by simp [hline])
  constructor
  case cut => simp [hopen]
  case line => simp [hline, Supervisor.isLive, Supervisor.dispatched]
  case free => simp [Supervisor.dispatched]
  case busy => exact fun _ _ => ⟨hline, rfl⟩
  case ended =>
    intro he
    rw [(h.ended he).2] at hidle
    cases hidle
  case vacant => exact fun _ => h.vacant (.inl (by simp [hidle]))
  case due => simp [Supervisor.dispatched]

theorem withdraw (h : Wired drained closed ws exits rs i s) (hstate : s.supervisor.state ≠ .exited)
    (hworkers : ∀ job, (⟨⟨i, s.epoch + 1⟩, job⟩ : Worker) ∉ ws)
    (hexits : (⟨i, s.epoch + 1⟩ : WorkerId) ∉ exits) :
    Wired drained closed ws exits (rs ++ s.supervisor.exited.1.due i) i
      ⟨s.supervisor.exited.2, .absent, s.epoch + 1⟩ := by
  have hnone := h.vacant (.inl hstate)
  constructor
  case cut => simp
  case line => simp [Supervisor.isLive]
  case free => simp
  case busy => exact fun job hw => absurd hw (hworkers (some job))
  case ended => exact fun he => absurd he hexits
  case vacant =>
    rintro (hlive | hd)
    · simp at hlive
    · rcases s.supervisor.exited_decision with ⟨-, hgive⟩ | ⟨hno, -⟩
      · simpa [dueAt, hgive, ExitDecision.due] using hnone
      · exact absurd hd (by simp [hno])
  case due =>
    intro _ hd
    rcases s.supervisor.exited_decision with ⟨hyes, -⟩ | ⟨-, delay, hagain⟩
    · exact absurd hd (by simp [hyes])
    · rw [dueAt] at hnone
      simp [dueAt, hagain, ExitDecision.due, List.countP_append, hnone]

theorem release (h : Wired drained closed ws exits rs i s) {job : Job}
    (hworker : ⟨⟨i, s.epoch⟩, some job⟩ ∈ ws) (hexits : (⟨i, s.epoch⟩ : WorkerId) ∉ exits) :
    Wired drained closed (assign ws ⟨i, s.epoch⟩ none) exits rs i
      { s with supervisor := s.supervisor.succeeded } := by
  obtain ⟨hline, hbusy⟩ := h.busy job hworker
  have hopen := h.not_drained (by simp [hline])
  constructor
  case cut => simp [hopen]
  case line => simp [hline, Supervisor.isLive, Supervisor.succeeded, hbusy]
  case free => exact fun _ _ => mem_assign.mpr (.inr ⟨rfl, _, hworker, rfl⟩)
  case busy => simp [mem_assign]
  case ended => exact fun he => absurd he hexits
  case vacant => exact fun _ => h.vacant (.inl (by simp [hbusy]))
  case due => simp [Supervisor.succeeded, hbusy]

theorem exited_of_due (h : Wired drained closed ws exits rs i s) {r : Respawn} (hr : r ∈ rs)
    (hi : r.slot = i) : s.supervisor.state = .exited ∧ s.supervisor.degraded = false := by
  have hpos : 0 < dueAt rs i := List.countP_pos_iff.mpr ⟨r, hr, by simp [hi]⟩
  constructor
  · apply Decidable.byContradiction
    intro hlive
    exact absurd (h.vacant (.inl hlive)) (Nat.ne_of_gt hpos)
  · cases hd : s.supervisor.degraded with
    | false => rfl
    | true => exact absurd (h.vacant (.inr hd)) (Nat.ne_of_gt hpos)

theorem install (h : Wired drained closed ws exits rs i s)
    (hworkers : ∀ job, (⟨⟨i, s.epoch + 1⟩, job⟩ : Worker) ∉ ws)
    (hexits : (⟨i, s.epoch + 1⟩ : WorkerId) ∉ exits) {r : Respawn} (hr : r ∈ rs) (hi : r.slot = i) :
    Wired false closed (ws ++ [⟨⟨i, s.epoch + 1⟩, none⟩]) exits (rs.erase r) i
      ⟨s.supervisor.attemptSpawn.spawned, .connected, s.epoch + 1⟩ := by
  obtain ⟨hexited, hd⟩ := h.exited_of_due hr hi
  obtain ⟨hone, -⟩ := h.due hexited hd
  constructor
  case cut => simp
  case line => simp [Supervisor.isLive, Supervisor.spawned]
  case free => simp
  case busy =>
    intro job hw
    rcases List.mem_append.mp hw with hold | hnew
    · exact absurd hold (hworkers (some job))
    · simp at hnew
  case ended => exact fun he => absurd he hexits
  case vacant =>
    intro _
    rw [dueAt] at hone ⊢
    rw [List.countP_erase, if_pos ⟨hr, by simp [hi]⟩]
    omega
  case due => simp [Supervisor.spawned]

theorem disconnect (h : Wired drained closed ws exits rs i s) (hidle : s.supervisor.state = .idle)
    (hline : s.line = .connected) :
    Wired drained closed (ws.filter fun w => decide (w.id ≠ ⟨i, s.epoch⟩)) exits rs i
      { s with line := .broken } := by
  have hopen := h.not_drained (by simp [hline])
  constructor
  case cut => simp [hopen]
  case line => simp [Supervisor.isLive, hidle]
  case free => simp
  case busy => simp
  case ended =>
    intro he
    rw [(h.ended he).2] at hidle
    cases hidle
  case vacant => exact h.vacant
  case due => exact h.due

theorem drain (h : Wired drained closed ws exits rs i s)
    (hworkers : ∀ job, (⟨⟨i, s.epoch + 1⟩, job⟩ : Worker) ∉ ws)
    (hexits : (⟨i, s.epoch + 1⟩ : WorkerId) ∉ exits) :
    Wired true closed ws exits rs i { s with line := .absent, epoch := s.epoch + 1 } := by
  constructor
  case cut => simp
  case line => simp
  case free => simp
  case busy => exact fun job hw => absurd hw (hworkers (some job))
  case ended => exact fun he => absurd he hexits
  case vacant => exact h.vacant
  case due => exact h.due

theorem leave (h : Wired drained closed ws exits rs i s) {id : WorkerId} {job : Job}
    (hworker : ⟨id, some job⟩ ∈ ws) :
    Wired drained closed (ws.filter fun w => decide (w.id ≠ id)) (exits ++ [id]) rs i s := by
  constructor
  case cut => exact h.cut
  case line => exact h.line
  case free =>
    intro hidle hline
    refine List.mem_filter.mpr ⟨h.free hidle hline, ?_⟩
    rw [decide_eq_true_eq]
    rintro rfl
    rw [(h.busy job hworker).2] at hidle
    cases hidle
  case busy => exact fun job hw => h.busy job (List.mem_filter.mp hw).1
  case ended =>
    intro he
    rcases List.mem_append.mp he with hold | hnew
    · exact h.ended hold
    · obtain rfl := List.mem_singleton.mp hnew
      exact h.busy job hworker
  case vacant => exact h.vacant
  case due => exact h.due

end Wired

end Pool

end SqlAtlas
