import SqlAtlas.Backend
import SqlAtlas.Cache
import SqlAtlas.Cache.Key
import SqlAtlas.Dict
import SqlAtlas.Settings

/-!
# The worker pool

Statements are parsed by workers that may crash. Jobs wait in one queue, oldest first, and go to
idle workers. Callers wait for their answer or until their time is up. A crashed worker answers its
job with no tree and is replaced after a pause, or given up.

Every definition that takes a pool to a pool is one step that nothing else can interrupt; a run of
the pool is any sequence of such steps. Times are in microseconds.
-/

namespace SqlAtlas

set_option autoImplicit false

structure Job where
  id : Nat
  text : List Char
  dialect : Dialect
  /-- When the caller stops waiting. -/
  deadline : Nat
deriving DecidableEq, Repr

def Job.isOverdue (j : Job) (now : Nat) : Bool := decide (j.deadline ≤ now)

inductive Line where
  /-- No line. -/
  | absent
  | connected
  /-- Nobody reads at the other end. -/
  | broken
deriving DecidableEq, Repr, Inhabited

structure Slot where
  supervisor : Supervisor
  line : Line := .absent
  /-- Goes up whenever the worker is replaced or taken out of service. -/
  epoch : Nat := 0
deriving DecidableEq, Repr, Inhabited

/-- A worker is known by its slot and the epoch in which it started. -/
structure WorkerId where
  slot : Nat
  epoch : Nat
deriving DecidableEq, Repr, Inhabited

structure Worker where
  id : WorkerId
  job : Option Job := none
deriving DecidableEq, Repr

structure Respawn where
  slot : Nat
  delay : Nat
deriving DecidableEq, Repr, Inhabited

structure Pool where
  settings : ParseSettings
  slots : List Slot
  workers : List Worker := []
  /-- Workers that have ended and have yet to say so. -/
  exits : List WorkerId := []
  respawns : List Respawn := []
  queue : List Job := []
  /-- The jobs whose callers are waiting. -/
  waiters : List Nat := []
  /-- Answers that were sent and not yet picked up. -/
  answers : Dict Nat (Option Tree) := {}
  cache : TtlCache String (Option Tree)
  isShutdown : Bool := false
  nextJob : Nat := 1
  submitted : Nat := 0
  now : Nat := 0
  /-- The jobs that workers were given, in order. -/
  handed : List Job := []

structure PoolStats where
  live : Nat
  degraded : Nat
  spawnAttempts : Nat
  submitted : Nat
  queued : Nat
deriving DecidableEq, Repr

namespace Pool

/-! ### Answers and jobs -/

def reply (p : Pool) (id : Nat) (answer : Option Tree) : Pool :=
  if p.waiters.contains id then
    { p with
      waiters := p.waiters.filter fun w => decide (w ≠ id)
      answers := p.answers.insert id answer }
  else p

/-- Gives up all jobs: every waiting caller is answered with no tree. -/
def abandon (p : Pool) : Pool :=
  { p with
    queue := []
    waiters := []
    answers := p.waiters.foldl (fun a id => a.insert id none) p.answers }

def isWanted (p : Pool) (j : Job) : Bool := p.waiters.contains j.id && !j.isOverdue p.now

/-! ### Slots -/

/-- Takes the worker of a slot out of service, and plans the next one unless the slot fails too
often. When no slot can recover, all jobs are given up. -/
def retire (p : Pool) (i : Nat) : Pool :=
  match p.slots[i]? with
  | none => p
  | some slot =>
    let (decision, supervisor) := slot.supervisor.exited
    let retired := { p with slots := p.slots.set i ⟨supervisor, .absent, slot.epoch + 1⟩ }
    match decision with
    | .respawn delay => { retired with respawns := retired.respawns ++ [⟨i, delay⟩] }
    | .giveUp =>
      if retired.slots.any fun s => s.supervisor.isLive || !s.supervisor.degraded then retired
      else retired.abandon

def hand (p : Pool) (id : WorkerId) (job : Job) : Pool :=
  { p with
    workers := p.workers.map fun w => if w.id = id then { w with job := some job } else w
    handed := p.handed ++ [job] }

/-- Offers a slot the oldest job that is still wanted. A worker that cannot be reached is taken out
of service, and its job goes back to the front. -/
def offer (p : Pool) (i : Nat) : Pool :=
  match p.slots[i]? with
  | none => p
  | some slot =>
    if slot.supervisor.state ≠ .idle ∨ slot.line = .absent then p
    else
      match p.queue.dropWhile fun j => !p.isWanted j with
      | [] => { p with queue := [] }
      | job :: rest =>
        let busy := { slot with supervisor := slot.supervisor.dispatched }
        let sent := { p with slots := p.slots.set i busy, queue := rest }
        if slot.line = .connected then sent.hand ⟨i, slot.epoch⟩ job
        else { sent with queue := job :: rest }.retire i

/-- Offers every slot a job, the first slot first. -/
def dispatch (p : Pool) : Pool := (List.range p.slots.length).foldl offer p

def spawn (p : Pool) (i : Nat) : Pool :=
  match p.slots[i]? with
  | none => p
  | some slot =>
    let epoch := slot.epoch + 1
    let started := ⟨slot.supervisor.attemptSpawn.spawned, .connected, epoch⟩
    dispatch { p with
      slots := p.slots.set i started
      workers := p.workers ++ [⟨⟨i, epoch⟩, none⟩] }

def start (s : ParseSettings) : Pool :=
  let slots := List.replicate s.poolSize ⟨{ policy := s.restart }, .absent, 0⟩
  let cache := { capacity := s.cacheCapacity, ttl := 1000 * s.cacheTtl }
  (List.range s.poolSize).foldl spawn { settings := s, slots, cache }

/-! ### Workers -/

/-- The slot of a worker, unless the worker was replaced or taken out of service. -/
def slotOf? (p : Pool) (id : WorkerId) : Option Slot :=
  p.slots[id.slot]?.filter fun s => decide (s.epoch = id.epoch)

def leave (p : Pool) (id : WorkerId) : Pool :=
  { p with
    workers := p.workers.filter fun w => decide (w.id ≠ id)
    exits := p.exits ++ [id] }

/-- A worker is done with its job. It goes on with the next one unless the parser crashed or the
worker was taken out of service. -/
def finish (p : Pool) (w : Worker) (outcome : ParseOutcome) : Pool :=
  match w.job with
  | none => p
  | some job =>
    let answered := p.reply job.id outcome.tree?
    match p.slotOf? w.id with
    | none => answered.leave w.id
    | some slot =>
      if outcome.isCrash then answered.leave w.id
      else
        dispatch { answered with
          slots := p.slots.set w.id.slot { slot with supervisor := slot.supervisor.succeeded }
          workers := p.workers.map fun v => if v.id = w.id then { v with job := none } else v }

def hangUp (p : Pool) (w : Worker) : Pool :=
  if w.job.isNone && (p.slotOf? w.id).isNone then p.leave w.id else p

def reportExit (p : Pool) (id : WorkerId) : Pool :=
  let reported := { p with exits := p.exits.erase id }
  if p.isShutdown || (p.slotOf? id).isNone then reported else reported.retire id.slot

def respawn (p : Pool) (r : Respawn) : Pool :=
  let due := { p with respawns := p.respawns.erase r }
  if p.isShutdown then due else due.spawn r.slot

def disconnect (p : Pool) (i : Nat) : Pool :=
  match p.slots[i]? with
  | none => p
  | some slot =>
    if slot.supervisor.state = .idle ∧ slot.line = .connected then
      { p with
        slots := p.slots.set i { slot with line := .broken }
        workers := p.workers.filter fun w => decide (w.id ≠ ⟨i, slot.epoch⟩) }
    else p

/-! ### Shutdown -/

def raiseShutdown (p : Pool) : Pool := { p with isShutdown := true }

/-- Cuts all lines and gives up all jobs. Slots stay as they were. -/
def drain (p : Pool) : Pool :=
  abandon { p with slots := p.slots.map fun s => { s with line := .absent, epoch := s.epoch + 1 } }

/-- Closes the pool; a second time does nothing. -/
def shutdown (p : Pool) : Pool := if p.isShutdown then p else p.raiseShutdown.drain

/-! ### What can be asked -/

def isReady (p : Pool) : Bool := p.slots.any (·.supervisor.isLive)

def stats (p : Pool) : PoolStats where
  live := p.slots.countP (·.supervisor.isLive)
  degraded := p.slots.countP (·.supervisor.degraded)
  spawnAttempts := p.slots.foldl (fun n s => n + s.supervisor.spawnAttempts) 0
  submitted := p.submitted
  queued := p.queue.length

def cached (p : Pool) : Nat := p.cache.size

end Pool

end SqlAtlas
