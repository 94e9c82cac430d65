import Mathlib.Logic.Relation
import SqlAtlas.Proofs.Pool.Execution

/-!
# Histories of a pool

A history is an execution that also remembers which jobs callers have entered, which callers have
failed to enter theirs, which of all these came after the pool had died, and what workers have
reported.

A move is made of small changes: jobs at the front of the queue are dropped, a free worker gets a job,
a slot loses its worker, and so on. `Change` lists them with all that holds when they happen, and
`changes_move` says that every move is a sequence of them. Whatever every change keeps is kept by
every run.
-/

namespace SqlAtlas

set_option autoImplicit false

/-! ### Supervisors -/

def ExitDecision.due (i : Nat) : ExitDecision → List Respawn
  | .respawn delay => [⟨i, delay⟩]
  | .giveUp => []

namespace Supervisor

variable (s : Supervisor)

@[simp] theorem exited_state : s.exited.2.state = .exited := by
  simp only [exited]
  split
  · split <;> rfl
  · rfl

@[simp] theorem exited_failures : s.exited.2.failures = s.failures + 1 := by
  simp only [exited]
  split
  · split <;> rfl
  · rfl

@[simp] theorem exited_policy : s.exited.2.policy = s.policy := by
  simp only [exited]
  split
  · split <;> rfl
  · rfl

@[simp] theorem exited_spawnAttempts : s.exited.2.spawnAttempts = s.spawnAttempts := by
  simp only [exited]
  split
  · split <;> rfl
  · rfl

/-- A slot is given up when it was before or when it has failed too often. -/
theorem exited_degraded :
    s.exited.2.degraded = (s.degraded || decide (s.policy.maxFailures ≤ s.failures + 1)) := by
  by_cases h : s.policy.maxFailures ≤ s.failures + 1
  · simp [exited, RestartPolicy.delay?, h]
  · cases hd : s.degraded <;> simp [exited, RestartPolicy.delay?, h, hd]

theorem exited_decision :
    (s.exited.2.degraded = true ∧ s.exited.1 = .giveUp) ∨
      (s.exited.2.degraded = false ∧ ∃ delay, s.exited.1 = .respawn delay) := by
  by_cases h : s.policy.maxFailures ≤ s.failures + 1
  · simp [exited, RestartPolicy.delay?, h]
  · cases hd : s.degraded <;> simp [exited, RestartPolicy.delay?, h, hd]

end Supervisor

namespace Pool

/-! ### Parts of steps -/

def isExhausted (p : Pool) : Bool :=
  p.slots.all fun s => s.supervisor.degraded && !s.supervisor.isLive

def skip (p : Pool) : Pool := { p with queue := p.queue.dropWhile fun j => !p.isWanted j }

def give (p : Pool) (i : Nat) (slot : Slot) (job : Job) (rest : List Job) : Pool :=
  hand { p with
    slots := p.slots.set i { slot with supervisor := slot.supervisor.dispatched }
    queue := rest } ⟨i, slot.epoch⟩ job

def withdraw (p : Pool) (i : Nat) (slot : Slot) : Pool :=
  { p with
    slots := p.slots.set i ⟨slot.supervisor.exited.2, .absent, slot.epoch + 1⟩
    respawns := p.respawns ++ slot.supervisor.exited.1.due i }

def install (p : Pool) (i : Nat) (slot : Slot) : Pool :=
  { p with
    slots := p.slots.set i ⟨slot.supervisor.attemptSpawn.spawned, .connected, slot.epoch + 1⟩
    workers := p.workers ++ [⟨⟨i, slot.epoch + 1⟩, none⟩] }

def assign (ws : List Worker) (id : WorkerId) (job : Option Job) : List Worker :=
  ws.map fun w => if w.id = id then { w with job := job } else w

def release (p : Pool) (id : WorkerId) (slot : Slot) : Pool :=
  { p with
    slots := p.slots.set id.slot { slot with supervisor := slot.supervisor.succeeded }
    workers := assign p.workers id none }

def enlist (p : Pool) (job : Job) : Pool :=
  { p.register with submitted := p.submitted + 1, queue := p.queue ++ [job] }

theorem isExhausted_eq_false {p : Pool} {s : Slot} (hs : s ∈ p.slots)
    (h : s.supervisor.degraded = false ∨ s.supervisor.isLive = true) : p.isExhausted = false := by
  rw [isExhausted, List.all_eq_false]
  refine ⟨s, hs, ?_⟩
  rcases h with h | h <;> simp [h]

theorem retire_eq {p : Pool} {i : Nat} {slot : Slot} (hslot : p.slots[i]? = some slot) :
    p.retire i = if (p.withdraw i slot).isExhausted then (p.withdraw i slot).abandon
      else p.withdraw i slot := by
  obtain ⟨hi, -⟩ := List.getElem?_eq_some_iff.mp hslot
  rcases slot.supervisor.exited_decision with ⟨hdegraded, hgive⟩ | ⟨hdegraded, delay, hagain⟩
  · have hwithdraw : p.withdraw i slot =
        { p with slots := p.slots.set i ⟨slot.supervisor.exited.2, .absent, slot.epoch + 1⟩ } := by
      simp [withdraw, ExitDecision.due, hgive]
    have hany : (p.withdraw i slot).slots.any (fun s => s.supervisor.isLive || !s.supervisor.degraded) =
        !(p.withdraw i slot).isExhausted := by
      simp [isExhausted, List.any_eq_not_all_not, Bool.and_comm]
    rw [hwithdraw] at hany ⊢
    simp only [retire, hslot, hgive, hany]
    split <;> simp_all
  · have hlive : (p.withdraw i slot).isExhausted = false :=
      isExhausted_eq_false (List.mem_set hi _) (.inl hdegraded)
    rw [if_neg (by simp [hlive])]
    simp [retire, hslot, withdraw, ExitDecision.due, hagain]

/-- An exit does not look at what the worker was doing. -/
theorem retire_set_dispatched {p : Pool} {i : Nat} {slot : Slot} (hslot : p.slots[i]? = some slot) :
    { p with slots := p.slots.set i { slot with supervisor := slot.supervisor.dispatched } }.retire i =
      p.retire i := by
  obtain ⟨hi, -⟩ := List.getElem?_eq_some_iff.mp hslot
  have hbusy := List.getElem?_set_self (a := { slot with supervisor := slot.supervisor.dispatched }) hi
  have hwithdraw : { p with
      slots := p.slots.set i { slot with supervisor := slot.supervisor.dispatched } }.withdraw i
        { slot with supervisor := slot.supervisor.dispatched } = p.withdraw i slot := by
    simp only [withdraw, List.set_set]
    rfl
  rw [retire_eq hslot, retire_eq hbusy, hwithdraw]

/-- What an offer can do: nothing, or drop what nobody wants and then give the first job to the worker
or find that the worker is out of reach. -/
theorem offer_cases (p : Pool) (i : Nat) :
    (p.offer i = p ∧ ∀ slot, p.slots[i]? = some slot →
      slot.supervisor.state ≠ .idle ∨ slot.line = .absent) ∨
    ∃ slot, p.slots[i]? = some slot ∧ slot.supervisor.state = .idle ∧
      (p.offer i = p.skip ∧ p.skip.queue = [] ∨ ∃ job rest, p.skip.queue = job :: rest ∧
        (slot.line = .connected ∧ p.offer i = p.skip.give i slot job rest ∨
          slot.line = .broken ∧ p.offer i = p.skip.retire i)) := by
  rw [offer]
  split
  · rename_i hnone
    exact .inl ⟨rfl, by simp [hnone]⟩
  · rename_i slot hslot
    split
    · rename_i hfree
      refine .inl ⟨rfl, ?_⟩
      rintro other hother
      obtain rfl := Option.some.inj (hslot.symm.trans hother)
      exact hfree
    · rename_i hfree
      obtain ⟨hidle, hline⟩ := not_or.mp hfree
      refine .inr ⟨slot, hslot, Decidable.not_not.mp hidle, ?_⟩
      split
      · rename_i hqueue
        exact .inl ⟨by simp only [skip, hqueue], hqueue⟩
      · rename_i job rest hqueue
        refine .inr ⟨job, rest, hqueue, ?_⟩
        cases hsome : slot.line with
        | absent => exact absurd hsome hline
        | connected =>
          refine .inl ⟨rfl, ?_⟩
          simp only [give, skip, hsome, if_true]
        | broken =>
          refine .inr ⟨rfl, ?_⟩
          rw [if_neg (by simp), ← retire_set_dispatched (p := p.skip) hslot, ← hsome]
          simp only [skip, hqueue]

theorem respawn_eq {p : Pool} {r : Respawn} {slot : Slot} (hopen : p.isShutdown = false)
    (hslot : p.slots[r.slot]? = some slot) :
    p.respawn r = ({ p with respawns := p.respawns.erase r }.install r.slot slot).dispatch := by
  simp [respawn, spawn, hopen, hslot, install]

theorem slots_retire {p : Pool} {i : Nat} {slot : Slot} (hslot : p.slots[i]? = some slot) :
    (p.retire i).slots = p.slots.set i ⟨slot.supervisor.exited.2, .absent, slot.epoch + 1⟩ := by
  rw [retire_eq hslot]
  split <;> rfl

theorem slotOf?_eq_some {p : Pool} {id : WorkerId} {slot : Slot} :
    p.slotOf? id = some slot ↔ p.slots[id.slot]? = some slot ∧ slot.epoch = id.epoch := by
  rw [slotOf?, Option.filter_eq_some_iff, decide_eq_true_eq]

theorem slotOf?_eq_none {p : Pool} {id : WorkerId} {slot : Slot}
    (hslot : p.slots[id.slot]? = some slot) (hepoch : slot.epoch ≠ id.epoch) :
    p.slotOf? id = none := by
  rw [slotOf?, hslot, Option.filter_some, if_neg (by simpa using hepoch)]

theorem retire_erase_exit (p : Pool) (i : Nat) (id : WorkerId) :
    { p with exits := p.exits.erase id }.retire i =
      { p.retire i with exits := (p.retire i).exits.erase id } := by
  cases hslot : p.slots[i]? with
  | none => simp only [retire, hslot]
  | some slot =>
    have hthere : { p with exits := p.exits.erase id }.slots[i]? = some slot := hslot
    rw [retire_eq hslot, retire_eq hthere]
    by_cases hout : (p.withdraw i slot).isExhausted = true
    · rw [if_pos hout]
      exact if_pos hout
    · rw [if_neg hout]
      exact if_neg hout

theorem reply_eq (p : Pool) (id : Nat) (answer : Option Tree) :
    ∃ answers, p.reply id answer =
      { p with waiters := p.waiters.filter fun w => decide (w ≠ id), answers } := by
  rw [reply]
  split
  · exact ⟨_, rfl⟩
  · rename_i habsent
    refine ⟨p.answers, ?_⟩
    rw [List.filter_eq_self.mpr]
    intro w hw
    rw [decide_eq_true_eq]
    rintro rfl
    exact habsent (List.contains_iff_mem.mpr hw)

/-! ### The start -/

theorem offer_of_queue_nil {p : Pool} (hqueue : p.queue = []) (i : Nat) : p.offer i = p := by
  rcases p.offer_cases i with ⟨hsame, -⟩ | ⟨slot, -, -, ⟨hskip, -⟩ | ⟨job, rest, hjob, -⟩⟩
  · exact hsame
  · rw [hskip, skip, hqueue, List.dropWhile_nil, ← hqueue]
  · rw [skip, hqueue] at hjob
    cases hjob

theorem dispatch_of_queue_nil {p : Pool} (hqueue : p.queue = []) : p.dispatch = p := by
  rw [dispatch]
  induction List.range p.slots.length with
  | nil => rfl
  | cons i is ih => rw [List.foldl_cons, offer_of_queue_nil hqueue, ih]

def bareSlot (s : ParseSettings) : Slot := ⟨{ policy := s.restart }, .absent, 0⟩

def firstSlot (s : ParseSettings) : Slot :=
  ⟨{ policy := s.restart, state := .idle, spawnAttempts := 1 }, .connected, 1⟩

theorem foldl_spawn (s : ParseSettings) (cache : TtlCache String (Option Tree)) {k : Nat}
    (hk : k ≤ s.poolSize) :
    (List.range k).foldl spawn
        { settings := s, slots := List.replicate s.poolSize (bareSlot s), cache } =
      { settings := s
        slots := List.replicate k (firstSlot s) ++ List.replicate (s.poolSize - k) (bareSlot s)
        workers := (List.range k).map fun i => ⟨⟨i, 1⟩, none⟩
        cache } := by
  induction k with
  | zero => simp
  | succ k ih =>
    obtain ⟨m, hm⟩ : ∃ m, s.poolSize - k = m + 1 := ⟨s.poolSize - k - 1, by omega⟩
    have hrest : s.poolSize - (k + 1) = m := by omega
    rw [List.range_succ, List.foldl_append, ih (by omega), List.foldl_cons, List.foldl_nil, hm, hrest]
    have hslot : (List.replicate k (firstSlot s) ++ List.replicate (m + 1) (bareSlot s))[k]? =
        some (bareSlot s) := by
      simp
    have hset : (List.replicate k (firstSlot s) ++ List.replicate (m + 1) (bareSlot s)).set k
        (firstSlot s) = List.replicate (k + 1) (firstSlot s) ++ List.replicate m (bareSlot s) := by
      rw [List.replicate_succ' (n := k), List.append_assoc]
      simp [List.replicate_succ]
    simp only [spawn, hslot]
    rw [dispatch_of_queue_nil rfl, List.map_append, ← hset]
    rfl

theorem start_eq (s : ParseSettings) :
    start s =
      { settings := s
        slots := List.replicate s.poolSize (firstSlot s)
        workers := (List.range s.poolSize).map fun i => ⟨⟨i, 1⟩, none⟩
        cache := { capacity := s.cacheCapacity, ttl := 1000 * s.cacheTtl } } := by
  have hall := foldl_spawn s { capacity := s.cacheCapacity, ttl := 1000 * s.cacheTtl } (Nat.le_refl _)
  rw [Nat.sub_self, List.replicate_zero, List.append_nil] at hall
  exact hall

/-! ### Histories -/

namespace Execution

/-- The pool has been closed and the jobs have been given up. -/
def isDrained (e : Execution) : Bool := e.pool.isShutdown && !e.closing

/-- Nobody can answer a job any more: the pool is drained, or every slot was given up and none is
live. -/
def isDead (e : Execution) : Bool := e.isDrained || e.pool.isExhausted

def entrant? (e : Execution) : Move → Option Call
  | .proceed i => e.calls[i]?.filter Call.isEntering
  | _ => none

def number? (e : Execution) (m : Move) : Option Nat := (e.entrant? m).map fun _ => e.pool.nextJob

def entry? (e : Execution) (m : Move) : Option Job :=
  (e.entrant? m).bind fun c => e.pool.nextJob? c.text c.dialect c.timeout

def report? (e : Execution) : Move → Option Parse
  | .report n => e.unreported[n]?
  | _ => none

end Execution

structure History extends Execution where
  /-- All jobs that callers have entered, in order. -/
  entered : List Job := []
  /-- The numbers of those who have failed to enter their jobs. -/
  failed : List Nat := []
  /-- The numbers that were given out when the pool was dead. -/
  late : List Nat := []
  /-- All that workers have reported, in order. -/
  reported : List Parse := []

namespace History

open Execution (Move)

def move (h : History) (m : Move) : History where
  toExecution := h.toExecution.move m
  entered := h.entered ++ (h.entry? m).toList
  failed := if (h.entry? m).isSome then h.failed else h.failed ++ (h.number? m).toList
  late := if h.isDead then h.late ++ (h.number? m).toList else h.late
  reported := h.reported ++ (h.report? m).toList

def run (h : History) (ms : List Move) : History := ms.foldl move h

def start (s : ParseSettings) : History where
  toExecution := Execution.start s

theorem toExecution_run (h : History) (ms : List Move) :
    (h.run ms).toExecution = h.toExecution.run ms := by
  induction ms generalizing h with
  | nil => rfl
  | cons m ms ih => exact ih (h.move m)

/-! ### Changes -/

inductive Change : History → History → Prop
  /-- Callers go on, caches change, time passes. -/
  | pass (h : History) (calls : List Call) (noticed : List WorkerId)
      (cache : TtlCache String (Option Tree)) (answers : Dict Nat (Option Tree)) {now : Nat}
      (hnow : h.pool.now ≤ now) :
      Change h { h with pool := { h.pool with cache, answers, now }, calls, noticed }
  | skip (h : History) : Change h { h with pool := h.pool.skip }
  | give (h : History) {i : Nat} {slot : Slot} {job : Job} {rest : List Job}
      (hslot : h.pool.slots[i]? = some slot) (hidle : slot.supervisor.state = .idle)
      (hline : slot.line = .connected) (hqueue : h.pool.queue = job :: rest) :
      Change h { h with pool := h.pool.give i slot job rest }
  | retire (h : History) {i : Nat} {slot : Slot} (hslot : h.pool.slots[i]? = some slot)
      (hgone : slot.supervisor.state = .idle ∧ slot.line = .broken ∨
        ⟨i, slot.epoch⟩ ∈ h.pool.exits) :
      Change h { h with pool := h.pool.retire i }
  | enlist (h : History) {job : Job} (hid : job.id = h.pool.nextJob) :
      Change h { h with
        pool := h.pool.enlist job
        entered := h.entered ++ [job]
        late := if h.isDead then h.late ++ [h.pool.nextJob] else h.late }
  | breakOff (h : History) :
      Change h { h with
        pool := h.pool.register
        failed := h.failed ++ [h.pool.nextJob]
        late := if h.isDead then h.late ++ [h.pool.nextJob] else h.late }
  | forget (h : History) (id : Nat) : Change h { h with pool := h.pool.forget id }
  | parse (h : History) {id : WorkerId} {job : Job} (outcome : ParseOutcome)
      (hworker : ⟨id, some job⟩ ∈ h.pool.workers) (hnew : ∀ p ∈ h.unreported, p.worker ≠ id) :
      Change h { h with
        parses := h.parses ++ [⟨id, job, outcome⟩]
        unreported := h.unreported ++ [⟨id, job, outcome⟩] }
  | answer (h : History) {n : Nat} {p : Parse} {slot : Slot} (hp : h.unreported[n]? = some p)
      (hslot : h.pool.slotOf? p.worker = some slot) (hcrash : p.outcome.isCrash = false) :
      Change h { h with
        pool := (h.pool.reply p.job.id p.outcome.tree?).release p.worker slot
        unreported := h.unreported.eraseIdx n
        reported := h.reported ++ [p] }
  | fail (h : History) {n : Nat} {p : Parse} (hp : h.unreported[n]? = some p)
      (hbad : p.outcome.isCrash = true ∨ h.pool.slotOf? p.worker = none) :
      Change h { h with
        pool := (h.pool.reply p.job.id p.outcome.tree?).leave p.worker
        unreported := h.unreported.eraseIdx n
        reported := h.reported ++ [p] }
  | hangUp (h : History) {id : WorkerId} (hworker : ⟨id, none⟩ ∈ h.pool.workers)
      (hslot : h.pool.slotOf? id = none) : Change h { h with pool := h.pool.leave id }
  | heed (h : History) {id : WorkerId}
      (hnone : h.pool.isShutdown = true ∨ h.pool.slotOf? id = none) :
      Change h { h with pool := { h.pool with exits := h.pool.exits.erase id } }
  | respawn (h : History) {r : Respawn} {slot : Slot} (hr : r ∈ h.pool.respawns)
      (hopen : h.pool.isShutdown = false) (hslot : h.pool.slots[r.slot]? = some slot) :
      Change h { h with
        pool := { h.pool with respawns := h.pool.respawns.erase r }.install r.slot slot }
  | cancel (h : History) {r : Respawn}
      (hnone : h.pool.isShutdown = true ∨ h.pool.slots[r.slot]? = none) :
      Change h { h with pool := { h.pool with respawns := h.pool.respawns.erase r } }
  | disconnect (h : History) {i : Nat} {slot : Slot} (hslot : h.pool.slots[i]? = some slot)
      (hidle : slot.supervisor.state = .idle) (hline : slot.line = .connected) :
      Change h { h with pool := { h.pool with
        slots := h.pool.slots.set i { slot with line := .broken }
        workers := h.pool.workers.filter fun w => decide (w.id ≠ ⟨i, slot.epoch⟩) } }
  | close (h : History) (hopen : h.pool.isShutdown = false) :
      Change h { h with pool := h.pool.raiseShutdown, closing := true }
  | drain (h : History) (hclosing : h.closing = true) :
      Change h { h with pool := h.pool.drain, closing := false }

abbrev Changes : History → History → Prop := Relation.ReflTransGen Change

theorem changes_offer (h : History) (i : Nat) : Changes h { h with pool := h.pool.offer i } := by
  rcases h.pool.offer_cases i with ⟨hsame, -⟩ | ⟨slot, hslot, hidle, hoffer⟩
  · rw [hsame]
  · refine .head (.skip h) ?_
    rcases hoffer with ⟨hskip, -⟩ | ⟨job, rest, hqueue, ⟨hline, hgive⟩ | ⟨hline, hretire⟩⟩
    · rw [hskip]
    · rw [hgive]
      exact .single (.give { h with pool := h.pool.skip } hslot hidle hline hqueue)
    · rw [hretire]
      exact .single (.retire { h with pool := h.pool.skip } hslot (.inl ⟨hidle, hline⟩))

theorem changes_dispatch (h : History) : Changes h { h with pool := h.pool.dispatch } := by
  rw [dispatch]
  generalize List.range h.pool.slots.length = is
  induction is generalizing h with
  | nil => exact .refl
  | cons i is ih => exact (h.changes_offer i).trans (ih { h with pool := h.pool.offer i })

theorem changes_turn (h : History) (i : Nat) (act : Call → Pool → Call × Pool)
    (hact : ∀ c, h.calls[i]? = some c → Changes h { h with
      pool := (act c h.pool).2
      calls := h.calls.set i (act c h.pool).1 }) :
    Changes h { h with toExecution := h.toExecution.turn i act } := by
  rw [Execution.turn]
  split
  · exact .refl
  · rename_i c hc
    exact hact c hc

theorem changes_pass (h : History) (calls : List Call) (cache : TtlCache String (Option Tree))
    (answers : Dict Nat (Option Tree)) :
    Changes h { h with pool := { h.pool with cache, answers }, calls } :=
  .single (.pass h calls h.noticed cache answers (Nat.le_refl _))

theorem move_eq_of_none {h : History} {m : Move} (hentrant : h.entrant? m = none)
    (hreport : h.report? m = none) : h.move m = { h with toExecution := h.toExecution.move m } := by
  simp [move, Execution.entry?, Execution.number?, hentrant, hreport]

theorem changes_enter (h : History) {i : Nat} {c : Call} (hc : h.calls[i]? = some c)
    (hentering : c.stage = .entering) : Changes h (h.move (.proceed i)) := by
  have hentrant : h.entrant? (.proceed i) = some c := by
    simp [Execution.entrant?, hc, Call.isEntering, hentering]
  cases hjob : h.pool.nextJob? c.text c.dialect c.timeout with
  | some job =>
    have hmove : h.move (.proceed i) = { h with
        pool := (h.pool.enlist job).dispatch
        calls := h.calls.set i { c with stage := .waiting job.id }
        entered := h.entered ++ [job]
        late := if h.isDead then h.late ++ [h.pool.nextJob] else h.late } := by
      simp [move, Execution.move, Execution.turn, hc, Call.step, hentering, Pool.enter, hjob,
        Execution.entry?, Execution.number?, hentrant, Execution.report?, enlist]
    have hid : job.id = h.pool.nextJob := by rw [(nextJob?_eq_some hjob).2]
    rw [hmove]
    refine .head (.enlist h hid) ?_
    refine .trans (changes_dispatch _) ?_
    exact changes_pass _ _ _ _
  | none =>
    have hmove : h.move (.proceed i) = { h with
        pool := h.pool.register
        calls := h.calls.set i { c with stage := .failed }
        failed := h.failed ++ [h.pool.nextJob]
        late := if h.isDead then h.late ++ [h.pool.nextJob] else h.late } := by
      simp [move, Execution.move, Execution.turn, hc, Call.step, hentering, Pool.enter, hjob,
        Execution.entry?, Execution.number?, hentrant, Execution.report?]
    rw [hmove]
    exact .head (.breakOff h) (changes_pass _ _ _ _)

theorem changes_proceed (h : History) (i : Nat) : Changes h (h.move (.proceed i)) := by
  cases hc : h.calls[i]? with
  | none =>
    rw [move_eq_of_none (by simp [Execution.entrant?, hc]) rfl]
    exact h.changes_turn i Call.step (by simp [hc])
  | some c =>
    by_cases hentering : c.stage = .entering
    · exact h.changes_enter hc hentering
    · have hentrant : h.entrant? (.proceed i) = none := by
        cases hstage : c.stage <;> simp_all [Execution.entrant?, Call.isEntering]
      rw [move_eq_of_none hentrant rfl]
      refine h.changes_turn i Call.step ?_
      intro d hd
      obtain rfl : c = d := Option.some.inj (hc.symm.trans hd)
      rw [Call.step]
      split
      · split
        · exact changes_pass h _ _ _
        · split <;> exact changes_pass h _ _ _
      · split <;> exact changes_pass h _ _ _
      · exact absurd ‹_› hentering
      · split <;> exact changes_pass h _ _ _
      · exact changes_pass h _ _ _
      · exact changes_pass h _ _ _
      · exact changes_pass h _ _ _

theorem changes_report (h : History) (n : Nat) : Changes h (h.move (.report n)) := by
  cases hp : h.unreported[n]? with
  | none =>
    rw [move_eq_of_none rfl (by simp [Execution.report?, hp])]
    simp only [Execution.move, hp]
    exact .refl
  | some p =>
    have hmove : h.move (.report n) = { h with
        pool := h.pool.finish ⟨p.worker, some p.job⟩ p.outcome
        unreported := h.unreported.eraseIdx n
        reported := h.reported ++ [p] } := by
      simp [move, Execution.move, hp, Execution.entry?, Execution.number?, Execution.entrant?,
        Execution.report?]
    rw [hmove, finish]
    cases hslot : h.pool.slotOf? p.worker with
    | none => exact .single (.fail h hp (.inr hslot))
    | some slot =>
      dsimp only
      split
      · rename_i hcrash
        exact .single (.fail h hp (.inl hcrash))
      · rename_i hcrash
        refine .head (.answer h hp hslot (by simpa using hcrash)) ?_
        obtain ⟨answers, hreply⟩ := h.pool.reply_eq p.job.id p.outcome.tree?
        rw [hreply]
        exact changes_dispatch _

theorem changes_reportLate (h : History) {id : WorkerId} (hid : id ∈ h.pool.exits) :
    Changes h { h with pool := h.pool.reportLate id } := by
  rw [reportLate]
  cases hslot : h.pool.slotOf? id with
  | none => exact .single (.heed h (.inr hslot))
  | some slot =>
    obtain ⟨hat, hepoch⟩ := slotOf?_eq_some.mp hslot
    obtain ⟨hi, -⟩ := List.getElem?_eq_some_iff.mp hat
    have hexit : (⟨id.slot, slot.epoch⟩ : WorkerId) ∈ h.pool.exits := by rwa [hepoch]
    rw [if_neg (by simp), retire_erase_exit]
    refine .head (.retire h hat (.inr hexit)) ?_
    -- the slot has moved on, so that the exit is of no more use
    have hnext : (h.pool.retire id.slot).slots[id.slot]? =
        some ⟨slot.supervisor.exited.2, .absent, slot.epoch + 1⟩ := by
      rw [slots_retire hat, List.getElem?_set_self hi]
    have hnone := slotOf?_eq_none hnext (by dsimp only; omega)
    exact .single (.heed { h with pool := h.pool.retire id.slot } (.inr hnone))

theorem changes_exit (h : History) (n : Nat) : Changes h (h.move (.exit n)) := by
  rw [move_eq_of_none rfl rfl, Execution.move]
  split
  · rename_i id hid
    have hmem := List.mem_of_getElem? hid
    have hreported : Changes h { h with
        pool := if id ∈ h.noticed then h.pool.reportLate id else h.pool.reportExit id } := by
      split
      · exact h.changes_reportLate hmem
      · cases hflag : h.pool.isShutdown with
        | false =>
          rw [reportExit_of_open hflag]
          exact h.changes_reportLate hmem
        | true =>
          rw [reportExit, if_pos (by rw [hflag, Bool.true_or])]
          exact .single (.heed h (.inl hflag))
    exact hreported.tail (.pass _ _ _ _ _ (Nat.le_refl _))
  · exact .refl

theorem changes_respawn (h : History) (n : Nat) : Changes h (h.move (.respawn n)) := by
  rw [move_eq_of_none rfl rfl, Execution.move]
  split
  · rename_i r hr
    have hmem := List.mem_of_getElem? hr
    by_cases hflag : h.pool.isShutdown = true
    · rw [Pool.respawn, if_pos hflag]
      exact .single (.cancel h (.inl hflag))
    · cases hslot : h.pool.slots[r.slot]? with
      | none =>
        rw [Pool.respawn, if_neg hflag, spawn]
        simp only [hslot]
        exact .single (.cancel h (.inr hslot))
      | some slot =>
        have hopen : h.pool.isShutdown = false := by simpa using hflag
        rw [respawn_eq hopen hslot]
        refine .head (.respawn h hmem hopen hslot) ?_
        exact changes_dispatch _
  · exact .refl

theorem changes_move (h : History) (m : Move) : Changes h (h.move m) := by
  cases m with
  | proceed i => exact h.changes_proceed i
  | report n => exact h.changes_report n
  | exit n => exact h.changes_exit n
  | respawn n => exact h.changes_respawn n
  | submit text dialect timeout =>
    rw [move_eq_of_none rfl rfl]
    exact h.changes_pass _ _ _
  | expire i =>
    rw [move_eq_of_none rfl rfl]
    refine h.changes_turn i Call.expire ?_
    intro c hc
    rw [Call.expire]
    split
    · exact .head (.forget h _) (changes_pass _ _ _ _)
    · exact h.changes_pass _ _ _
  | parse n outcome =>
    rw [move_eq_of_none rfl rfl, Execution.move]
    split
    · rename_i id job hworker
      split
      · exact .refl
      · rename_i hnew
        refine .single (.parse h outcome (List.mem_of_getElem? hworker) ?_)
        simpa using hnew
    · exact .refl
  | hangUp n =>
    rw [move_eq_of_none rfl rfl, Execution.move]
    split
    · rename_i w hw
      rw [Pool.hangUp]
      split
      · rename_i hgone
        obtain ⟨id, job⟩ := w
        obtain ⟨hjob, hslot⟩ := (Bool.and_eq_true _ _).mp hgone
        obtain rfl := Option.isNone_iff_eq_none.mp hjob
        exact .single (.hangUp h (List.mem_of_getElem? hw) (Option.isNone_iff_eq_none.mp hslot))
      · exact .refl
    · exact .refl
  | notice n =>
    rw [move_eq_of_none rfl rfl, Execution.move]
    split
    · split
      · exact .refl
      · exact .single (.pass h _ _ _ _ (Nat.le_refl _))
    · exact .refl
  | disconnect i =>
    rw [move_eq_of_none rfl rfl, Execution.move, Pool.disconnect]
    split
    · exact .refl
    · rename_i slot hslot
      split
      · rename_i hfree
        exact .single (.disconnect h hslot hfree.1 hfree.2)
      · exact .refl
  | close =>
    rw [move_eq_of_none rfl rfl, Execution.move]
    split
    · exact .refl
    · rename_i hopen
      exact .single (.close h (by simpa using hopen))
  | drain =>
    rw [move_eq_of_none rfl rfl, Execution.move]
    split
    · rename_i hclosing
      exact .single (.drain h hclosing)
    · exact .refl
  | wait span =>
    rw [move_eq_of_none rfl rfl]
    exact .single (.pass h _ _ _ _ (Nat.le_add_right _ _))
  | age span =>
    rw [move_eq_of_none rfl rfl]
    exact h.changes_pass _ _ _

theorem run_induction {P : History → Prop} (hchange : ∀ {g h}, P g → Change g h → P h) {h : History}
    (hstart : P h) (ms : List Move) : P (h.run ms) := by
  induction ms generalizing h with
  | nil => exact hstart
  | cons m ms ih =>
    have hmove : P (h.move m) := by
      have hchanges := h.changes_move m
      generalize h.move m = g at hchanges ⊢
      induction hchanges with
      | refl => exact hstart
      | tail _ hlast hbefore => exact hchange hbefore hlast
    exact ih hmove

end History

end Pool

end SqlAtlas
