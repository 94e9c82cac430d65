import SqlAtlas.Index.Query
import SqlAtlas.Pool.Run
import SqlAtlas.Workspace

/-!
# Runs of a workspace

One way to run a workspace with a pool: corrections go one after another, the oldest first, and each
waits for the tree of its statement. While parses are held up, the first correction that needs one
waits, for as long as the settings let it, and the others wait behind it.
-/

namespace SqlAtlas

set_option autoImplicit false

structure WaitingCall where
  call : Call
  due : Nat

/-- A workspace with its pool; there is none if nothing is parsed. -/
structure Session where
  workspace : Workspace
  parser : Option PoolRun
  waiting : Option WaitingCall := none

structure SessionStats where
  index : IndexStats
  pool : Option PoolStats
  corrections : CorrectionCounts

namespace Session

def start (s : Settings) (b : Backend) : Except SettingsError Session :=
  (Workspace.ofSettings s).map fun w =>
    { workspace := w
      parser := if w.corrects then some { pool := .start s.parse, backend := b } else none }

def elapse (s : Session) (span : Nat) : Session :=
  { s with parser := s.parser.map fun r =>
      { r with pool := { r.pool with
        now := r.pool.now + span
        cache := r.pool.cache.advance span } } }

def now (s : Session) : Nat := (s.parser.map (·.pool.now)).getD 0

/-- Begins the next correction; its call takes a moment. -/
def beginNext (s : Session) : Session :=
  let w := s.workspace.beginCorrection 0
  match w.begun with
  | [] => { s with workspace := w }
  | c :: _ =>
    let timeout := w.settings.parse.timeout.toMicros
    let call := { text := c.ambiguity.statement, dialect := w.settings.parse.dialect, timeout }
    { s with
      workspace := w
      parser := s.parser.map (fun r =>
        { r with pool := { r.pool with cache := r.pool.cache.advance 1 } })
      waiting := some ⟨call, s.now + timeout.count⟩ }

def correctSome : Nat → Session → Session
  | 0, s => s
  | n + 1, s =>
    match s.waiting, s.parser with
    | some w, some r =>
      let (call, r) := r.proceed w.call
      match call.answer? with
      | some tree =>
        correctSome n
          { workspace := s.workspace.endCorrection 0 tree, parser := some r, waiting := none }
      | none => { s with parser := some r, waiting := some { w with call } }
    | _, _ => if s.workspace.scheduled.isEmpty then s else correctSome n s.beginNext

def correctAll (s : Session) : Session := correctSome (2 * s.workspace.pending) s

def expire (s : Session) : Session :=
  match s.waiting, s.parser with
  | some w, some r =>
    if w.due ≤ s.now then
      let (call, pool) := w.call.expire r.pool
      { s with parser := some { r with pool }, waiting := some { w with call } }
    else s
  | _, _ => s

/-- Waits for the corrections, with at most `n` of them running out of time. -/
def waitSome : Nat → Nat → Session → Bool × Session
  | 0, _, s => (s.workspace.pending == 0, s)
  | n + 1, span, s =>
    let s := s.correctAll
    if s.workspace.pending = 0 then (true, s)
    else
      match s.waiting.map (·.due) with
      | some due =>
        if due ≤ s.now + span then
          let passed := due - s.now
          waitSome n (span - passed) (s.elapse passed).expire
        else (false, s.elapse span)
      | none => (false, s.elapse span)

/-- Waits until all corrections have ended, for some time at most; answers whether they have. -/
def wait (s : Session) (span : Nat) : Bool × Session :=
  waitSome (s.workspace.pending + 1) span s

/-! ### Operations -/

def indexFile (s : Session) (uri : String) (text : List Char) :
    Except FilterFault (IndexOutcome × Session) :=
  (s.workspace.indexFile uri text).map fun (o, w) => (o, { s with workspace := w }.correctAll)

def indexBatch (s : Session) (files : List (String × List Char)) :
    Except FilterFault (List IndexOutcome × Session) :=
  (s.workspace.indexBatch files).map fun (o, w) => (o, { s with workspace := w }.correctAll)

def deindexFile (s : Session) (uri : String) : Session :=
  { s with workspace := s.workspace.deindexFile uri }

def submit (s : Session) (c : Call) : Option Tree × Session :=
  match s.parser with
  | none => (none, s)
  | some r =>
    let (tree, r) := { r with pool := { r.pool with cache := r.pool.cache.advance 1 } }.submit c
    (tree, { s with parser := some r }.expire.correctAll)

def isReady (s : Session) : Bool := s.parser.any (·.pool.isReady)

def hold (s : Session) : Session := { s with parser := s.parser.map (·.hold) }

def release (s : Session) : Session :=
  correctAll { s with parser := s.parser.map fun (r : PoolRun) => r.release.2 }

/-- Closes the pool; the corrections under way end without a tree. -/
def shutdown (s : Session) : Session :=
  correctAll { s with parser := s.parser.map fun (r : PoolRun) => r.shutdown.2 }

def stats (s : Session) : SessionStats where
  index := s.workspace.index.stats
  pool := s.parser.map (·.pool.stats)
  corrections := s.workspace.counts

end Session

end SqlAtlas
