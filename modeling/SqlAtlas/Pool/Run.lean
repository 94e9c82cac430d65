import SqlAtlas.Pool.Call

/-!
# Runs of the pool

One way to run a pool: the worker with the oldest job finishes first, ended workers say so at once,
and new workers come as soon as they are due. A run can be held up, and then no worker finishes.
-/

namespace SqlAtlas

set_option autoImplicit false

namespace Pool

def oldestBusy? (p : Pool) : Option (Worker × Job) :=
  p.workers.foldl
    (fun best w =>
      match best, w.job with
      | none, some j => some (w, j)
      | some (v, i), some j => if j.id < i.id then some (w, j) else some (v, i)
      | best, none => best)
    none

def reportExits (p : Pool) : Pool := p.exits.foldl reportExit p

/-- All new workers that are due start. A run waits for a new worker if the pauses of its pool
start below a second. -/
def respawnDue (p : Pool) : Pool :=
  if p.settings.restart.baseDelay < 1000000 then p.respawns.foldl respawn p else p

def work (b : Backend) : Nat → Pool → Pool
  | 0, p => p
  | n + 1, p =>
    match p.oldestBusy? with
    | none => p
    | some (w, j) => work b n ((p.finish w (b j.dialect j.text)).reportExits.respawnDue)

/-- Finishes all jobs: each is in the queue or with a worker, and none comes back. -/
def settle (b : Backend) (p : Pool) : Pool := work b (p.queue.length + p.workers.length) p

end Pool

structure PoolRun where
  pool : Pool
  backend : Backend
  isHeld : Bool := false
  calls : List Call := []

namespace PoolRun

def settle (r : PoolRun) : PoolRun :=
  if r.isHeld then r else { r with pool := r.pool.settle r.backend }

def proceed (r : PoolRun) (c : Call) : Call × PoolRun :=
  let (c, pool) := c.proceed r.pool
  let settled := { r with pool }.settle
  let (c, pool) := c.proceed settled.pool
  (c, { settled with pool })

/-- Makes a call and waits for its answer. A held call is told nothing when its time is up. -/
def submit (r : PoolRun) (c : Call) : Option Tree × PoolRun :=
  match r.proceed c with
  | (c, r) =>
    match c.answer? with
    | some answer => (answer, r)
    | none =>
      let passed := { r.pool with now := r.pool.now + c.timeout }
      let (c, pool) := c.expire passed
      let (c, pool) := c.proceed pool
      (c.answer?.getD none, { r with pool })

def submitLater (r : PoolRun) (c : Call) : PoolRun :=
  let (c, r) := r.proceed c
  { r with calls := r.calls ++ [c] }

def hold (r : PoolRun) : PoolRun := { r with isHeld := true }

def collect (r : PoolRun) : List (Option Tree) × PoolRun :=
  let (answers, pool) := r.calls.foldl
    (fun (answers, p) c =>
      let (c, p) := c.proceed p
      (answers ++ [c.answer?.getD none], p))
    ([], r.pool)
  (answers, { r with pool, calls := [] })

def release (r : PoolRun) : List (Option Tree) × PoolRun :=
  { r with isHeld := false }.settle.collect

def shutdown (r : PoolRun) : List (Option Tree) × PoolRun :=
  { r with pool := r.pool.shutdown }.collect

/-- Lets the time of the cache pass, in milliseconds. -/
def advance (r : PoolRun) (span : Nat) : PoolRun :=
  { r with pool := { r.pool with cache := r.pool.cache.advance (1000 * span) } }

end PoolRun

end SqlAtlas
