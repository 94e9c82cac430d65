import SqlAtlas.Proofs.Cache
import SqlAtlas.Proofs.Pool.Jobs

/-!
# Answers of a pool

Answers travel under the numbers of jobs and under the keys of statements. No number is given twice,
and a number stands for the request of one caller as long as anybody knows it; a key stands for one
statement where the digest tells the statements apart. So a tree that a caller is told came out of
the parser for the caller's own text and dialect.
-/

namespace SqlAtlas

set_option autoImplicit false

def Job.request (j : Job) : Dialect × List Char := (j.dialect, j.text)

def Call.request (c : Call) : Dialect × List Char := (c.dialect, c.text)

@[simp] def CallStage.tree? : CallStage → Option Tree
  | .storing answer | .returned answer => answer
  | .looking | .checking | .entering | .waiting _ | .failed => none

theorem Call.tree?_of_answer? {c : Call} {tree : Tree} (h : c.answer? = some (some tree)) :
    c.stage.tree? = some tree := by
  rw [answer?] at h
  split at h
  · rename_i answer hstage
    rw [hstage]
    exact Option.some.inj h
  · cases h

namespace Pool.Execution

/-- A job that somebody may still speak of: the pool holds it, or it was parsed. -/
def Knows (e : Execution) (j : Job) : Prop := e.pool.Holds j ∨ ∃ p ∈ e.parses, p.job = j

def Vouches (e : Execution) (key : String) (tree : Tree) : Prop :=
  ∃ p ∈ e.parses, statementKey p.job.dialect p.job.text = key ∧ p.outcome = .parsed tree

/-- Every number, answer and cached entry goes back to a request and a parse. -/
structure Genuine (e : Execution) : Prop where
  numbered : ∀ j, e.Knows j → j.id < e.pool.nextJob
  asked : ∀ j, e.Knows j → j.request ∈ e.calls.map Call.request
  waiting : ∀ c ∈ e.calls, ∀ id, c.stage = .waiting id →
    id < e.pool.nextJob ∧ ∀ j, e.Knows j → j.id = id → j.request = c.request
  answered : ∀ id tree, e.pool.answers.get? id = some (some tree) →
    ∃ p ∈ e.parses, p.job.id = id ∧ p.outcome = .parsed tree
  cached : ∀ entry ∈ e.pool.cache.entries, ∀ tree, entry.value = some tree →
    e.Vouches entry.key tree
  told : ∀ c ∈ e.calls, ∀ tree, c.stage.tree? = some tree → e.Vouches c.key tree
  logged : e.unreported ⊆ e.parses

variable {e f : Execution}

theorem Genuine.keeps (h : e.Genuine) (hpool : e.pool.Keeps f.pool) (hcalls : f.calls = e.calls)
    (hparses : f.parses = e.parses) (hlogged : f.unreported ⊆ e.unreported) : f.Genuine := by
  have hknows (j : Job) (hj : f.Knows j) : e.Knows j := by
    rcases hj with hheld | hparsed
    · exact .inl (hpool.jobs j hheld)
    · exact .inr (hparses ▸ hparsed)
  constructor
  case numbered =>
    intro j hj
    rw [hpool.nextJob]
    exact h.numbered j (hknows j hj)
  case asked =>
    intro j hj
    rw [hcalls]
    exact h.asked j (hknows j hj)
  case waiting =>
    intro c hc id hid
    rw [hcalls] at hc
    obtain ⟨hlt, hasks⟩ := h.waiting c hc id hid
    exact ⟨hpool.nextJob ▸ hlt, fun j hj => hasks j (hknows j hj)⟩
  case answered =>
    intro id tree ha
    rw [hparses]
    exact h.answered id tree (hpool.answers id tree ha)
  case cached =>
    intro entry hentry tree hvalue
    rw [Vouches, hparses]
    exact h.cached entry (hpool.cached hentry) tree hvalue
  case told =>
    intro c hc tree htold
    rw [hcalls] at hc
    rw [Vouches, hparses]
    exact h.told c hc tree htold
  case logged =>
    rw [hparses]
    exact List.Subset.trans hlogged h.logged

theorem genuine_start (s : ParseSettings) : (start s).Genuine := by
  let blank : Execution := { pool := {
    settings := s
    slots := List.replicate s.poolSize ⟨{ policy := s.restart }, .absent, 0⟩
    cache := { capacity := s.cacheCapacity, ttl := 1000 * s.cacheTtl } } }
  have hknows (j : Job) : ¬ blank.Knows j := by simp [blank, Knows, Holds]
  have hblank : blank.Genuine := by
    constructor
    case numbered => exact fun j hj => absurd hj (hknows j)
    case asked => exact fun j hj => absurd hj (hknows j)
    case waiting => exact fun c hc => absurd hc List.not_mem_nil
    case answered => simp [blank]
    case cached => exact fun entry hentry => absurd hentry List.not_mem_nil
    case told => exact fun c hc => absurd hc List.not_mem_nil
    case logged => exact List.nil_subset _
  exact hblank.keeps (Keeps.foldl keeps_spawn _ _) rfl rfl (List.nil_subset _)

/-! ### Calls -/

theorem requests_set {calls : List Call} {i : Nat} {c : Call} (hc : calls[i]? = some c)
    (stage : CallStage) :
    (calls.set i { c with stage }).map Call.request = calls.map Call.request := by
  obtain ⟨hi, rfl⟩ := List.getElem?_eq_some_iff.mp hc
  have hself := congrArg (List.map Call.request) (List.set_getElem_self hi)
  rw [List.map_set] at hself ⊢
  exact hself

theorem Genuine.setStage (h : e.Genuine) {i : Nat} {c : Call} (hc : e.calls[i]? = some c)
    (stage : CallStage)
    (hwaiting : ∀ id, stage = .waiting id →
      id < e.pool.nextJob ∧ ∀ j, e.Knows j → j.id = id → j.request = c.request)
    (htold : ∀ tree, stage.tree? = some tree → e.Vouches c.key tree) :
    Genuine { e with calls := e.calls.set i { c with stage } } := by
  constructor
  case numbered => exact h.numbered
  case asked =>
    intro j hj
    rw [requests_set hc]
    exact h.asked j hj
  case waiting =>
    intro d hd id hid
    rcases List.mem_or_eq_of_mem_set hd with hold | rfl
    · exact h.waiting d hold id hid
    · exact hwaiting id hid
  case answered => exact h.answered
  case cached => exact h.cached
  case told =>
    intro d hd tree hstage
    rcases List.mem_or_eq_of_mem_set hd with hold | rfl
    · exact h.told d hold tree hstage
    · exact htold tree hstage
  case logged => exact h.logged

theorem Genuine.register (h : e.Genuine) : Genuine { e with pool := e.pool.register } where
  numbered j hj := Nat.lt_succ_of_lt (h.numbered j hj)
  asked := h.asked
  waiting c hc id hid := by
    obtain ⟨hlt, hasks⟩ := h.waiting c hc id hid
    exact ⟨Nat.lt_succ_of_lt hlt, hasks⟩
  answered := h.answered
  cached := h.cached
  told := h.told
  logged := h.logged

theorem Genuine.enter (h : e.Genuine) {i : Nat} {c : Call} (hc : e.calls[i]? = some c) {job : Job}
    (hjob : e.pool.nextJob? c.text c.dialect c.timeout = some job) :
    Genuine { e with
      pool := { e.pool.register with
        submitted := e.pool.submitted + 1
        queue := e.pool.queue ++ [job] }.dispatch
      calls := e.calls.set i { c with stage := .waiting job.id } } := by
  let entered : Execution := { e with pool := { e.pool.register with
    submitted := e.pool.submitted + 1
    queue := e.pool.queue ++ [job] } }
  obtain ⟨-, rfl⟩ := nextJob?_eq_some hjob
  have hknows (j : Job) (hj : entered.Knows j) :
      e.Knows j ∨ j = ⟨e.pool.nextJob, c.text, c.dialect, e.pool.now + c.timeout.count⟩ := by
    rcases hj with (hqueue | hworker) | hparsed
    · rcases List.mem_append.mp hqueue with hold | hnew
      · exact .inl (.inl (.inl hold))
      · exact .inr (List.mem_singleton.mp hnew)
    · exact .inl (.inl (.inr hworker))
    · exact .inl (.inr hparsed)
  have hentered : entered.Genuine := by
    constructor
    case numbered =>
      intro j hj
      rcases hknows j hj with hold | rfl
      · exact Nat.lt_succ_of_lt (h.numbered j hold)
      · exact Nat.lt_succ_self _
    case asked =>
      intro j hj
      rcases hknows j hj with hold | rfl
      · exact h.asked j hold
      · exact List.mem_map.mpr ⟨c, List.mem_of_getElem? hc, rfl⟩
    case waiting =>
      -- nobody waits for the new number yet
      intro d hd id hid
      obtain ⟨hlt, hasks⟩ := h.waiting d hd id hid
      refine ⟨Nat.lt_succ_of_lt hlt, ?_⟩
      intro j hj hjid
      rcases hknows j hj with hold | rfl
      · exact hasks j hold hjid
      · exact absurd hjid (Nat.ne_of_gt hlt)
    case answered => exact h.answered
    case cached => exact h.cached
    case told => exact h.told
    case logged => exact h.logged
  have hstage := hentered.setStage hc (.waiting e.pool.nextJob)
    (by
      rintro id ⟨rfl⟩
      refine ⟨Nat.lt_succ_self _, ?_⟩
      intro j hj hjid
      rcases hknows j hj with hold | rfl
      · exact absurd hjid (Nat.ne_of_lt (h.numbered j hold))
      · rfl)
    (by simp)
  exact hstage.keeps (keeps_dispatch _) rfl rfl (fun _ hp => hp)

theorem Genuine.store (h : e.Genuine) (key : String) (answer : Option Tree)
    (hanswer : ∀ tree, answer = some tree → e.Vouches key tree) :
    Genuine { e with pool := { e.pool with cache := e.pool.cache.insert key answer } } where
  numbered := h.numbered
  asked := h.asked
  waiting := h.waiting
  answered := h.answered
  cached entry hentry tree hvalue := by
    rcases TtlCache.mem_entries_insert hentry with hold | ⟨hkey, hnew⟩
    · exact h.cached entry hold tree hvalue
    · rw [hkey]
      exact hanswer tree (hnew.symm.trans hvalue)
  told := h.told
  logged := h.logged

theorem Genuine.vouches_answer (h : e.Genuine) {c : Call} (hc : c ∈ e.calls) {id : Nat}
    (hid : c.stage = .waiting id) {tree : Tree}
    (ha : e.pool.answers.get? id = some (some tree)) : e.Vouches c.key tree := by
  obtain ⟨p, hp, hpid, houtcome⟩ := h.answered id tree ha
  obtain ⟨-, hasks⟩ := h.waiting c hc id hid
  have hrequest := hasks p.job (.inr ⟨p, hp, rfl⟩) hpid
  obtain ⟨hdialect, htext⟩ := Prod.mk.inj hrequest
  exact ⟨p, hp, by rw [hdialect, htext, Call.key], houtcome⟩

theorem Genuine.vouches_cached (h : e.Genuine) {key : String} {tree : Tree}
    (hget : (e.pool.cache.get key).1 = some (some tree)) : e.Vouches key tree := by
  obtain ⟨entry, hentry, rfl, hvalue⟩ := TtlCache.mem_entries_of_get hget
  exact h.cached entry hentry tree hvalue

theorem Genuine.step (h : e.Genuine) {i : Nat} {c : Call} (hc : e.calls[i]? = some c) :
    Genuine { e with
      pool := (c.step e.pool).2
      calls := e.calls.set i (c.step e.pool).1 } := by
  have hmem : c ∈ e.calls := List.mem_of_getElem? hc
  cases hstage : c.stage with
  | looking =>
    have hget := e.pool.cache.entries_get_subset c.key
    simp only [Call.step, hstage]
    split
    · exact h.setStage hc (.returned none) (by simp) (by simp)
    · split
      · rename_i answer cache hhit
        rw [hhit] at hget
        have hvouched (tree : Tree) (htree : answer = some tree) : e.Vouches c.key tree :=
          h.vouches_cached (by rw [hhit, htree])
        exact (h.setStage hc (.returned answer) (by simp) hvouched).keeps (e.pool.keeps_cache hget) rfl
          rfl fun _ hp => hp
      · rename_i cache hmiss
        rw [hmiss] at hget
        exact (h.setStage hc .checking (by simp) (by simp)).keeps (e.pool.keeps_cache hget) rfl rfl
          fun _ hp => hp
  | checking =>
    simp only [Call.step, hstage]
    split
    · exact h.setStage hc (.storing none) (by simp) (by simp)
    · exact h.setStage hc .entering (by simp) (by simp)
  | entering =>
    simp only [Call.step, hstage, Pool.enter]
    split
    · rename_i hentered
      split at hentered
      · rename_i job hjob
        cases hentered
        exact h.enter hc hjob
      · cases hentered
    · rename_i hbroken
      split at hbroken
      · cases hbroken
      · cases hbroken
        exact h.register.setStage hc .failed (by simp) (by simp)
  | waiting id =>
    simp only [Call.step, hstage]
    split
    · rename_i answer ha
      have htold := h.setStage hc (.storing answer) (by simp)
        fun tree htree => h.vouches_answer hmem hstage (htree ▸ ha)
      exact htold.keeps (e.pool.keeps_erase_answer id) rfl rfl fun _ hp => hp
    · exact h.setStage hc c.stage (h.waiting c hmem) (h.told c hmem)
  | storing answer =>
    simp only [Call.step, hstage]
    have hvouched := fun tree htree => h.told c hmem tree (hstage ▸ htree)
    exact (h.setStage hc (.returned answer) (by simp) hvouched).store c.key answer hvouched
  | failed | returned answer =>
    simp only [Call.step, hstage]
    exact h.setStage hc c.stage (h.waiting c hmem) (h.told c hmem)

theorem Genuine.expire (h : e.Genuine) {i : Nat} {c : Call} (hc : e.calls[i]? = some c) :
    Genuine { e with
      pool := (c.expire e.pool).2
      calls := e.calls.set i (c.expire e.pool).1 } := by
  have hmem : c ∈ e.calls := List.mem_of_getElem? hc
  rw [Call.expire]
  split
  · rename_i id hid
    exact (h.setStage hc (.storing none) (by simp) (by simp)).keeps (e.pool.keeps_forget id) rfl rfl
      fun _ hp => hp
  · exact h.setStage hc c.stage (h.waiting c hmem) (h.told c hmem)

theorem Genuine.turn (h : e.Genuine) (i : Nat) {act : Call → Pool → Call × Pool}
    (hact : ∀ c, e.calls[i]? = some c → Genuine { e with
      pool := (act c e.pool).2
      calls := e.calls.set i (act c e.pool).1 }) : (e.turn i act).Genuine := by
  rw [Execution.turn]
  split
  · exact h
  · rename_i c hc
    exact hact c hc

theorem Genuine.submit (h : e.Genuine) (text : List Char) (dialect : Dialect)
    (timeout : Micros) :
    Genuine { e with calls := e.calls ++ [{ text, dialect, timeout }] } where
  numbered := h.numbered
  asked j hj := by
    rw [List.map_append]
    exact List.mem_append_left _ (h.asked j hj)
  waiting c hc id hid := by
    rcases List.mem_append.mp hc with hold | hnew
    · exact h.waiting c hold id hid
    · rw [List.mem_singleton.mp hnew] at hid
      cases hid
  answered := h.answered
  cached := h.cached
  told c hc tree htree := by
    rcases List.mem_append.mp hc with hold | hnew
    · exact h.told c hold tree htree
    · rw [List.mem_singleton.mp hnew] at htree
      cases htree
  logged := h.logged

/-! ### Workers -/

theorem Genuine.parse (h : e.Genuine) {id : WorkerId} {job : Job}
    (hworker : ⟨id, some job⟩ ∈ e.pool.workers) (outcome : ParseOutcome) :
    Genuine { e with
      parses := e.parses ++ [⟨id, job, outcome⟩]
      unreported := e.unreported ++ [⟨id, job, outcome⟩] } := by
  have hsub : e.parses ⊆ e.parses ++ [⟨id, job, outcome⟩] := List.subset_append_left _ _
  -- the worker had the job, so that nothing is known that was not
  have hknows (j : Job)
      (hj : e.pool.Holds j ∨ ∃ p ∈ e.parses ++ [⟨id, job, outcome⟩], p.job = j) : e.Knows j := by
    rcases hj with hheld | ⟨p, hp, rfl⟩
    · exact .inl hheld
    · rcases List.mem_append.mp hp with hold | hnew
      · exact .inr ⟨p, hold, rfl⟩
      · rw [List.mem_singleton.mp hnew]
        exact .inl (.inr ⟨_, hworker, rfl⟩)
  constructor
  case numbered => exact fun j hj => h.numbered j (hknows j hj)
  case asked => exact fun j hj => h.asked j (hknows j hj)
  case waiting =>
    intro c hc n hn
    obtain ⟨hlt, hasks⟩ := h.waiting c hc n hn
    exact ⟨hlt, fun j hj => hasks j (hknows j hj)⟩
  case answered =>
    intro n tree ha
    obtain ⟨p, hp, hparsed⟩ := h.answered n tree ha
    exact ⟨p, hsub hp, hparsed⟩
  case cached =>
    intro entry hentry tree hvalue
    obtain ⟨p, hp, hparsed⟩ := h.cached entry hentry tree hvalue
    exact ⟨p, hsub hp, hparsed⟩
  case told =>
    intro c hc tree htree
    obtain ⟨p, hp, hparsed⟩ := h.told c hc tree htree
    exact ⟨p, hsub hp, hparsed⟩
  case logged =>
    intro p hp
    rcases List.mem_append.mp hp with hold | hnew
    · exact hsub (h.logged hold)
    · exact List.mem_append_right _ hnew

theorem eq_parsed_of_tree? {outcome : ParseOutcome} {tree : Tree}
    (h : outcome.tree? = some tree) : outcome = .parsed tree := by
  cases outcome with
  | parsed t => rw [Option.some.inj h]
  | refused => cases h
  | crashed => cases h

theorem Genuine.reply (h : e.Genuine) {p : Parse} (hp : p ∈ e.parses) :
    Genuine { e with pool := e.pool.reply p.job.id p.outcome.tree? } := by
  rw [Pool.reply]
  split
  · constructor
    case numbered => exact h.numbered
    case asked => exact h.asked
    case waiting => exact h.waiting
    case answered =>
      intro id tree ha
      rw [Dict.get?_insert] at ha
      split at ha
      · rename_i hid
        exact ⟨p, hp, hid, eq_parsed_of_tree? (Option.some.inj ha)⟩
      · exact h.answered id tree ha
    case cached => exact h.cached
    case told => exact h.told
    case logged => exact h.logged
  · exact h

/-! ### Executions -/

theorem Genuine.move (h : e.Genuine) (m : Move) : (e.move m).Genuine := by
  cases m with
  | submit text dialect timeout => exact h.submit text dialect timeout
  | proceed i => exact h.turn i fun _ hc => h.step hc
  | expire i => exact h.turn i fun _ hc => h.expire hc
  | parse n outcome =>
    rw [Execution.move]
    split
    · rename_i id job hworker
      split
      · exact h
      · exact h.parse (List.mem_of_getElem? hworker) outcome
    · exact h
  | report n =>
    rw [Execution.move]
    split
    · rename_i p hp
      have hlogged : p ∈ e.parses := h.logged (List.mem_of_getElem? hp)
      exact (h.reply hlogged).keeps (e.pool.keeps_finish p.worker p.job p.outcome) rfl rfl
        (List.eraseIdx_sublist _ _).subset
    · exact h
  | hangUp n =>
    rw [Execution.move]
    split
    · exact h.keeps (e.pool.keeps_hangUp _) rfl rfl fun _ hp => hp
    · exact h
  | notice n =>
    rw [Execution.move]
    split
    · split
      · exact h
      · exact h.keeps (.refl _) rfl rfl fun _ hp => hp
    · exact h
  | exit n =>
    rw [Execution.move]
    split
    · rename_i id hid
      refine h.keeps ?_ rfl rfl fun _ hp => hp
      dsimp only
      split
      · exact e.pool.keeps_reportLate id
      · exact e.pool.keeps_reportExit id
    · exact h
  | respawn n =>
    rw [Execution.move]
    split
    · exact h.keeps (e.pool.keeps_respawn _) rfl rfl fun _ hp => hp
    · exact h
  | disconnect i => exact h.keeps (e.pool.keeps_disconnect i) rfl rfl fun _ hp => hp
  | close =>
    rw [Execution.move]
    split
    · exact h
    · exact h.keeps (.of_parts rfl (fun _ hj => hj) (fun _ hw => .inr hw) rfl rfl) rfl rfl
        fun _ hp => hp
  | drain =>
    rw [Execution.move]
    split
    · exact h.keeps e.pool.keeps_drain rfl rfl fun _ hp => hp
    · exact h
  | wait span =>
    exact h.keeps (.of_parts rfl (fun _ hj => hj) (fun _ hw => .inr hw) rfl rfl) rfl rfl
      fun _ hp => hp
  | age span => exact h.keeps (e.pool.keeps_cache fun _ hentry => hentry) rfl rfl fun _ hp => hp

theorem Genuine.run (h : e.Genuine) (ms : List Move) : (e.run ms).Genuine := by
  induction ms generalizing e with
  | nil => exact h
  | cons m ms ih => exact ih (h.move m)

def digested (e : Execution) : List (List UInt8) :=
  e.calls.map fun c => statementBytes c.dialect c.text

/-- Whatever turns have been taken, in whatever order: when a caller has been told a tree, the parser
has returned that tree for the text and the dialect of that caller, provided that the digest tells
the statements apart that callers have asked for. -/
theorem answer_was_parsed (settings : ParseSettings) (moves : List Move)
    (hdigest : Set.InjOn Digest.sha256 { b | b ∈ ((start settings).run moves).digested }) :
    ∀ c ∈ ((start settings).run moves).calls, ∀ tree, c.answer? = some (some tree) →
      ∃ p ∈ ((start settings).run moves).parses,
        p.job.text = c.text ∧ p.job.dialect = c.dialect ∧ p.outcome = .parsed tree := by
  intro c hc tree hanswer
  have h := (genuine_start settings).run moves
  obtain ⟨p, hp, hkey, houtcome⟩ := h.told c hc tree (Call.tree?_of_answer? hanswer)
  obtain ⟨d, hd, hrequest⟩ := List.mem_map.mp (h.asked p.job (.inr ⟨p, hp, rfl⟩))
  obtain ⟨hdialect, htext⟩ := Prod.mk.inj hrequest
  have hbytes : statementBytes p.job.dialect p.job.text ∈ ((start settings).run moves).digested :=
    List.mem_map.mpr ⟨d, hd, by rw [hdialect, htext]⟩
  obtain ⟨hdialect, htext⟩ :=
    statementKey_inj hdigest hbytes (List.mem_map.mpr ⟨c, hc, rfl⟩) hkey
  exact ⟨p, hp, htext, hdialect, houtcome⟩

/-- Two callers ask for different statements. The second gets its job in first, its worker crashes
and it gives up; a third caller asks for what the first was told. -/
def repeatedRequest : List Move := [
  .submit "DELETE FROM a".toList .tsql 1000, .submit "DELETE FROM b".toList .tsql 5,
  .proceed 0, .proceed 1, .proceed 0, .proceed 1, .proceed 1, .proceed 0,
  .parse 0 .crashed, .wait 5, .expire 1, .report 0, .exit 0, .respawn 0,
  .parse 0 (.parsed [.delete ⟨.ofText "a", none⟩ [] [] []]), .report 0, .proceed 0, .proceed 0,
  .submit "DELETE FROM a".toList .tsql 1000, .proceed 2]

theorem answer_was_parsed_cached :
    ∃ c ∈ ((start { poolSize := 1 }).run repeatedRequest).calls.drop 2,
      c.text = "DELETE FROM a".toList ∧ ∃ tree, c.answer? = some (some tree) ∧
        ∃ p ∈ ((start { poolSize := 1 }).run repeatedRequest).parses,
          p.job.text = c.text ∧ p.job.dialect = c.dialect ∧ p.outcome = .parsed tree := by
  have hdigest : ∀ a ∈ ((start { poolSize := 1 }).run repeatedRequest).digested,
      ∀ b ∈ ((start { poolSize := 1 }).run repeatedRequest).digested,
      Digest.sha256 a = Digest.sha256 b → a = b := by decide +kernel
  have htold : ∃ c ∈ ((start { poolSize := 1 }).run repeatedRequest).calls.drop 2,
      c.text = "DELETE FROM a".toList ∧ c.answer?.join.isSome = true := by decide +kernel
  obtain ⟨c, hc, htext, hsome⟩ := htold
  obtain ⟨tree, htree⟩ := Option.isSome_iff_exists.mp hsome
  have hanswer : c.answer? = some (some tree) := Option.join_eq_some_iff.mp htree
  refine ⟨c, hc, htext, tree, hanswer, ?_⟩
  refine answer_was_parsed _ _ ?_ c (List.mem_of_mem_drop hc) tree hanswer
  exact fun a ha b hb => hdigest a ha b hb

end Pool.Execution

end SqlAtlas
