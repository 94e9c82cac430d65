import Mathlib.Algebra.Ring.Nat
import SqlAtlas.Proofs.Workspace.Assembly
import SqlAtlas.Workspace.Run

/-!
# Every correction is accounted for

Seen as a ledger, an assembly is a few numbers. A move makes one of six postings in it, and all that
holds of the numbers in all runs is kept by each of the six.

The counters and the pending count are not raised and lowered together. A correction is counted as
scheduled before it is pending, and it is pending for a while after the counter of its ending has gone
up. While a file is indexed, some of its corrections are counted and its ambiguities are not reported.
-/

namespace SqlAtlas

set_option autoImplicit false

open Workspace

def CorrectionCounts.ended (c : CorrectionCounts) : Nat :=
  c.applied + c.stale + c.rejected + c.inconclusive

@[simp] theorem CorrectionCounts.ended_add (c : CorrectionCounts) (ending : Ending) :
    (c.add ending).ended = c.ended + 1 := by
  cases ending <;> simp only [add, ended] <;> omega

@[simp] theorem CorrectionCounts.scheduled_add (c : CorrectionCounts) (ending : Ending) :
    (c.add ending).scheduled = c.scheduled := by
  cases ending <;> rfl

@[ext]
structure Ledger where
  scheduled : Nat
  ended : Nat
  counted : Nat
  underway : Nat
  leaving : Nat
  latch : Nat
  /-- The ambiguities of the files that callers have said to be indexed. -/
  reported : Nat
  handed : Nat

namespace Ledger

inductive Posting (l : Ledger) : Ledger → Prop where
  | stay : Posting l l
  | count : Posting l { l with
      scheduled := l.scheduled + 1
      counted := l.counted + 1
      handed := l.handed + 1 }
  | begin {counted : Nat} (h : l.counted = counted + 1) :
    Posting l { l with counted, underway := l.underway + 1, latch := l.latch + 1 }
  | report {n handed : Nat} (h : l.handed = handed + n) :
    Posting l { l with reported := l.reported + n, handed }
  | finish {underway : Nat} (h : l.underway = underway + 1) :
    Posting l { l with ended := l.ended + 1, underway, leaving := l.leaving + 1 }
  | leave {leaving : Nat} (h : l.leaving = leaving + 1) :
    Posting l { l with leaving, latch := l.latch - 1 }

structure Balanced (l : Ledger) : Prop where
  ended : l.scheduled = l.ended + l.underway + l.counted
  reported : l.scheduled = l.reported + l.handed
  latch : l.latch = l.underway + l.leaving

theorem Posting.balanced {l l' : Ledger} (h : Posting l l') (hl : l.Balanced) : l'.Balanced := by
  obtain ⟨hended, hreported, hlatch⟩ := hl
  cases h with
  | stay => exact ⟨hended, hreported, hlatch⟩
  | count => constructor <;> dsimp only <;> omega
  | begin h => constructor <;> dsimp only <;> omega
  | report h => constructor <;> dsimp only <;> omega
  | finish h => constructor <;> dsimp only <;> omega
  | leave h => constructor <;> dsimp only <;> omega

end Ledger

theorem sum_map_set {α : Type} (f : α → Nat) {l : List α} {n : Nat} {a : α} (h : l[n]? = some a)
    (b : α) : ((l.set n b).map f).sum + f a = (l.map f).sum + f b := by
  induction l generalizing n with
  | nil => cases h
  | cons x l ih =>
    cases n with
    | zero =>
      cases h
      simp only [List.set_cons_zero, List.map_cons, List.sum_cons]
      omega
    | succ n =>
      have hrest := ih h
      simp only [List.set_cons_succ, List.map_cons, List.sum_cons]
      omega

namespace Workspace

/-- What a caller does of its own changes nothing but the index. -/
theorem perform_frame (w : Workspace) {t : Task} (h : t.correction? = none) :
    ∃ index, (w.perform t).1 = { w with index } := by
  cases t with
  | schedule c => cases h
  | define file => exact ⟨_, rfl⟩
  | replace uri text => exact ⟨_, rfl⟩
  | discard uri => exact ⟨w.index, rfl⟩
  | remove uri => exact ⟨_, rfl⟩

/-- Only a published file brings corrections up. -/
theorem correction?_perform (w : Workspace) {t t' : Task}
    (h : ∀ uri text, t ≠ .replace uri text) (ht' : t' ∈ (w.perform t).2.1) :
    t'.correction? = none := by
  cases t with
  | replace uri text => exact absurd rfl (h uri text)
  | define file => cases ht'
  | schedule c => cases ht'
  | remove uri => cases ht'
  | discard uri =>
    rw [perform] at ht'
    dsimp only at ht'
    split at ht'
    · cases List.mem_singleton.mp ht'
      rfl
    · cases ht'

end Workspace

namespace Assembly

open Ledger

def ledger (a : Assembly) : Ledger where
  scheduled := a.workspace.counts.scheduled
  ended := a.workspace.counts.ended
  counted := a.counted.length
  underway := a.underway.length
  leaving := a.leaving
  latch := a.latch
  reported := (a.reported.map (·.ambiguities)).sum
  handed := (a.callers.map Caller.handed).sum

/-- Corrections are scheduled by those who have published a file, and by nobody else. -/
structure Ready (a : Assembly) : Prop where
  corrects : a.workspace.corrects = true
  plain : ∀ c ∈ a.callers, ∀ t ∈ c.tasks, t.correction? = none

variable {a : Assembly}

theorem length_underway (a : Assembly) : a.underway.length =
    (a.callers.flatMap Caller.unspawned).length + (a.workspace.scheduled.length +
      (a.workspace.begun.length + (a.answered.length + a.decided.length))) := by
  simp only [underway, List.length_append, List.length_map]

theorem length_flatMap_set {α β : Type} (f : α → List β) {l : List α} {n : Nat} {a : α}
    (h : l[n]? = some a) (b : α) :
    ((l.set n b).flatMap f).length + (f a).length = (l.flatMap f).length + (f b).length := by
  rw [List.length_flatMap, List.length_flatMap]
  exact sum_map_set (fun a => (f a).length) h b

theorem length_eraseIdx_of_some {α : Type} {l : List α} {n : Nat} {x : α} (h : l[n]? = some x) :
    l.length = (l.eraseIdx n).length + 1 := by
  rw [(Execution.perm_eraseIdx h).length_eq, List.length_cons]

/-! ### Moves -/

theorem posting_of_eq {l l' : Ledger} (h : l' = l) : Posting l l' := h ▸ .stay

/-- The numbers after a caller has got to somewhere else. -/
theorem ledger_set {n : Nat} {c : Caller} (hc : a.callers[n]? = some c) (c' : Caller) :
    let l := { a with callers := a.callers.set n c' }.ledger
    l.handed + c.handed = a.ledger.handed + c'.handed ∧
    l.counted + c.counted.length = a.ledger.counted + c'.counted.length ∧
    l.underway + c.unspawned.length = a.ledger.underway + c'.unspawned.length := by
  refine ⟨sum_map_set Caller.handed hc c', length_flatMap_set Caller.counted hc c', ?_⟩
  have hset := length_flatMap_set Caller.unspawned hc c'
  simp only [ledger, length_underway]
  omega

/-- Whoever has just published a file has nothing of it handed over. -/
theorem next_blank (w : Workspace) (t : Task) (ts : List Task) :
    (w.next t ts).handed = 0 ∧ (w.next t ts).counted = [] ∧ (w.next t ts).unspawned = [] := by
  cases t with
  | replace uri text =>
    refine ⟨?_, rfl, rfl⟩
    change (w.publish uri text).1.ambiguities - _ = 0
    rw [← w.length_handover uri text]
    exact Nat.sub_self _
  | define file | schedule c | discard uri | remove uri => exact ⟨rfl, rfl, rfl⟩

theorem posting_reported {n : Nat} {ts : List Task} {file : IndexedFile}
    {fits : ([] : List Correction).length ≤ file.ambiguities}
    (hc : a.callers[n]? = some ⟨ts, some ⟨file, .between, [], fits⟩⟩) :
    Posting a.ledger (a.handOver n ts ⟨file, .between, [], fits⟩).ledger := by
  obtain ⟨hhanded, hcounted, hunderway⟩ := ledger_set hc ⟨ts, none⟩
  have hreported : ((a.reported ++ [file]).map (·.ambiguities)).sum =
      a.ledger.reported + file.ambiguities := by
    rw [List.map_append, List.sum_append]
    rfl
  have hledger : (a.handOver n ts ⟨file, .between, [], fits⟩).ledger = { a.ledger with
      reported := a.ledger.reported + file.ambiguities
      handed := ((a.callers.set n ⟨ts, none⟩).map Caller.handed).sum } :=
    Ledger.ext rfl rfl hcounted hunderway rfl rfl hreported rfl
  rw [hledger]
  exact .report hhanded.symm

theorem posting_counted (h : a.workspace.corrects = true) {n : Nat} {ts : List Task}
    {file : IndexedFile} {job : Correction} {left : List Correction}
    {fits : (job :: left).length ≤ file.ambiguities}
    (hc : a.callers[n]? = some ⟨ts, some ⟨file, .between, job :: left, fits⟩⟩) :
    Posting a.ledger (a.handOver n ts ⟨file, .between, job :: left, fits⟩).ledger := by
  have hfits : left.length + 1 ≤ file.ambiguities := fits
  obtain ⟨hhanded, hcounted, hunderway⟩ :=
    ledger_set hc ⟨ts, some ⟨file, .counted job, left, Nat.le_of_succ_le fits⟩⟩
  simp only [Caller.handed, List.length_cons] at hhanded
  have hledger : (a.handOver n ts ⟨file, .between, job :: left, fits⟩).ledger = { a.ledger with
      scheduled := a.ledger.scheduled + 1
      counted := a.ledger.counted + 1
      handed := a.ledger.handed + 1 } := by
    rw [handOver, if_pos h]
    refine Ledger.ext rfl rfl hcounted hunderway rfl rfl rfl ?_
    change ((a.callers.set n ⟨ts, some ⟨file, .counted job, left, _⟩⟩).map Caller.handed).sum =
      a.ledger.handed + 1
    change ((a.callers.set n ⟨ts, some ⟨file, .counted job, left, _⟩⟩).map Caller.handed).sum + _ = _
      at hhanded
    omega
  rw [hledger]
  exact .count

theorem posting_pending {n : Nat} {ts : List Task} {file : IndexedFile} {job : Correction}
    {left : List Correction} {fits : left.length ≤ file.ambiguities}
    (hc : a.callers[n]? = some ⟨ts, some ⟨file, .counted job, left, fits⟩⟩) :
    Posting a.ledger (a.handOver n ts ⟨file, .counted job, left, fits⟩).ledger := by
  obtain ⟨hhanded, hcounted, hunderway⟩ := ledger_set hc ⟨ts, some ⟨file, .pending job, left, fits⟩⟩
  have hledger : (a.handOver n ts ⟨file, .counted job, left, fits⟩).ledger = { a.ledger with
      counted := ((a.callers.set n ⟨ts, some ⟨file, .pending job, left, fits⟩⟩).flatMap
        Caller.counted).length
      underway := a.ledger.underway + 1
      latch := a.ledger.latch + 1 } :=
    Ledger.ext rfl rfl rfl hunderway rfl rfl rfl (Nat.add_right_cancel hhanded)
  rw [hledger]
  exact .begin hcounted.symm

/-- Spawning moves a correction that is under way from its caller to the workspace. -/
theorem posting_spawned {n : Nat} {ts : List Task} {file : IndexedFile} {job : Correction}
    {left : List Correction} {fits : left.length ≤ file.ambiguities}
    (hc : a.callers[n]? = some ⟨ts, some ⟨file, .pending job, left, fits⟩⟩) :
    Posting a.ledger (a.handOver n ts ⟨file, .pending job, left, fits⟩).ledger := by
  obtain ⟨hhanded, hcounted, hunderway⟩ := ledger_set hc ⟨ts, some ⟨file, .between, left, fits⟩⟩
  refine posting_of_eq (Ledger.ext rfl rfl hcounted ?_ rfl rfl rfl (Nat.add_right_cancel hhanded))
  simp only [ledger, length_underway, Caller.unspawned, List.length_singleton, List.length_nil]
    at hunderway
  simp only [ledger, length_underway, handOver, spawn, List.length_append, List.length_singleton]
  omega

theorem posting_handOver (h : a.workspace.corrects = true) {n : Nat} {ts : List Task}
    {handover : Handover} (hc : a.callers[n]? = some ⟨ts, some handover⟩) :
    Posting a.ledger (a.handOver n ts handover).ledger := by
  obtain ⟨file, stage, left, fits⟩ := handover
  cases stage with
  | between =>
    cases left with
    | nil => exact posting_reported hc
    | cons job left => exact posting_counted h hc
  | counted job => exact posting_pending hc
  | pending job => exact posting_spawned hc

theorem posting_task {n : Nat} {t : Task} {ts : List Task} (ht : t.correction? = none)
    (hc : a.callers[n]? = some ⟨t :: ts, none⟩) :
    Posting a.ledger (a.turn n ⟨t :: ts, none⟩).ledger := by
  obtain ⟨hhanded, hcounted, hunderway⟩ := ledger_set hc (a.workspace.next t ts)
  obtain ⟨hnone, hcount, hspawn⟩ := next_blank a.workspace t ts
  rw [hnone] at hhanded
  rw [hcount] at hcounted
  rw [hspawn] at hunderway
  obtain ⟨index, hindex⟩ := perform_frame a.workspace ht
  rw [turn, hindex]
  exact posting_of_eq (Ledger.ext rfl rfl hcounted hunderway rfl rfl rfl hhanded)

theorem posting_turn (h : a.Ready) {n : Nat} {c : Caller} (hc : a.callers[n]? = some c) :
    Posting a.ledger (a.turn n c).ledger := by
  obtain ⟨ts, handover⟩ := c
  cases handover with
  | some handover => exact posting_handOver h.corrects hc
  | none =>
    cases ts with
    | nil => exact .stay
    | cons t ts => exact posting_task (h.plain _ (List.mem_of_getElem? hc) t List.mem_cons_self) hc

theorem posting_move (h : a.Ready) (m : Move) : Posting a.ledger (a.move m).ledger := by
  cases m with
  | arrive op =>
    refine posting_of_eq (Ledger.ext rfl rfl ?_ ?_ rfl rfl rfl ?_)
    · simp [ledger, move, counted, Caller.counted]
    · simp [ledger, move, length_underway, Caller.unspawned]
    · simp [ledger, move, Caller.handed]
  | call n =>
    rw [move]
    split
    · rename_i c hc
      exact posting_turn h hc
    · exact .stay
  | begin n =>
    rw [move]
    split
    · exact .stay
    · rename_i c hc
      have hscheduled := length_eraseIdx_of_some hc
      dsimp only
      split
      all_goals
        refine posting_of_eq (Ledger.ext rfl rfl rfl ?_ rfl rfl rfl rfl)
        simp only [ledger, length_underway, request, take, List.length_append, List.length_singleton]
        omega
  | answer n =>
    rw [move]
    split
    · rename_i c tree hc _
      have hbegun := length_eraseIdx_of_some hc
      refine posting_of_eq (Ledger.ext rfl rfl rfl ?_ rfl rfl rfl rfl)
      simp only [ledger, length_underway, List.length_append, List.length_singleton]
      omega
    · exact .stay
  | settle n =>
    rw [move]
    split
    · rename_i c tree hc
      have hanswered := length_eraseIdx_of_some hc
      refine posting_of_eq (Ledger.ext rfl rfl rfl ?_ rfl rfl rfl rfl)
      simp only [ledger, length_underway, List.length_append, List.length_singleton]
      omega
    · exact .stay
  | count n =>
    rw [move]
    split
    · rename_i c ending hc
      have hdecided := length_eraseIdx_of_some hc
      have hledger : ({ a with
          workspace := a.workspace.count ending
          decided := a.decided.eraseIdx n
          leaving := a.leaving + 1 } : Assembly).ledger = { a.ledger with
            ended := a.ledger.ended + 1
            underway := a.ledger.underway - 1
            leaving := a.ledger.leaving + 1 } := by
        refine Ledger.ext ?_ ?_ rfl ?_ rfl rfl rfl rfl
        · exact a.workspace.counts.scheduled_add ending
        · exact a.workspace.counts.ended_add ending
        · simp only [ledger, length_underway, Workspace.count]
          omega
      rw [hledger]
      refine .finish ?_
      simp only [ledger, length_underway]
      omega
    · exact .stay
  | leave =>
    rw [move]
    split
    · exact .stay
    · rename_i hleaving
      exact .leave (Nat.succ_pred hleaving).symm
  | pool m => exact .stay
  | watch => exact .stay
  | look i =>
    rw [move]
    split <;> exact .stay
  | wake i =>
    rw [move]
    split <;> exact .stay
  | expire i =>
    rw [move]
    split <;> exact .stay

/-- A caller goes on with tasks that schedule nothing by themselves. -/
theorem plain_next (w : Workspace) {t : Task} {ts : List Task}
    (h : ∀ t' ∈ t :: ts, t'.correction? = none) :
    ∀ t' ∈ (w.next t ts).tasks, t'.correction? = none := by
  have hrest : ∀ t' ∈ ts, t'.correction? = none := fun t' ht' => h t' (List.mem_cons_of_mem t ht')
  have hmore : (∀ uri text, t ≠ .replace uri text) →
      ∀ t' ∈ (w.perform t).2.1 ++ ts, t'.correction? = none := by
    intro hother t' ht'
    cases List.mem_append.mp ht' with
    | inl ht' => exact correction?_perform w hother ht'
    | inr ht' => exact hrest t' ht'
  cases t with
  | replace uri text => exact hrest
  | define file => exact hmore nofun
  | schedule c => exact hmore nofun
  | discard uri => exact hmore nofun
  | remove uri => exact hmore nofun

theorem Ready.plain_set (h : a.Ready) (n : Nat) {c : Caller}
    (hc : ∀ t ∈ c.tasks, t.correction? = none) :
    ∀ d ∈ a.callers.set n c, ∀ t ∈ d.tasks, t.correction? = none := by
  intro d hd
  cases List.mem_or_eq_of_mem_set hd with
  | inl hd => exact h.plain d hd
  | inr hd => exact hd ▸ hc

theorem Ready.handOver (h : a.Ready) (n : Nat) {ts : List Task}
    (hts : ∀ t ∈ ts, t.correction? = none) (handover : Handover) : (a.handOver n ts handover).Ready := by
  obtain ⟨file, stage, left, fits⟩ := handover
  cases stage with
  | between =>
    cases left with
    | nil => exact ⟨h.corrects, h.plain_set n hts⟩
    | cons job left =>
      rw [Assembly.handOver, if_pos h.corrects]
      exact ⟨h.corrects, h.plain_set n hts⟩
  | counted job => exact ⟨h.corrects, h.plain_set n hts⟩
  | pending job => exact ⟨h.corrects, h.plain_set n hts⟩

theorem Ready.turn (h : a.Ready) {n : Nat} {c : Caller} (hc : a.callers[n]? = some c) :
    (a.turn n c).Ready := by
  have hown := h.plain c (List.mem_of_getElem? hc)
  obtain ⟨ts, handover⟩ := c
  cases handover with
  | some handover => exact h.handOver n hown handover
  | none =>
    cases ts with
    | nil => exact h
    | cons t ts =>
      refine ⟨?_, h.plain_set n (plain_next a.workspace hown)⟩
      exact (corrects_congr (settings_perform a.workspace t)).trans h.corrects

theorem Ready.move (h : a.Ready) (m : Move) : (a.move m).Ready := by
  have hplain := h.plain
  cases m with
  | arrive op =>
    refine ⟨h.corrects, ?_⟩
    intro c hc
    cases List.mem_append.mp hc with
    | inl hc => exact hplain c hc
    | inr hc =>
      cases List.mem_singleton.mp hc
      exact fun t ht => Execution.correction?_tasks ht
  | call n =>
    rw [Assembly.move]
    split
    · rename_i c hc
      exact h.turn hc
    · exact h
  | pool m => exact ⟨h.corrects, hplain⟩
  | watch => exact ⟨h.corrects, hplain⟩
  | begin n =>
    rw [Assembly.move]
    split
    · exact h
    · dsimp only
      split <;> exact ⟨h.corrects, hplain⟩
  | answer n | settle n | count n | leave | look i | wake i | expire i =>
    rw [Assembly.move]
    split
    all_goals first
      | exact h
      | exact ⟨h.corrects, hplain⟩

theorem watchers_turn (a : Assembly) (n : Nat) (c : Caller) :
    (a.turn n c).watchers = a.watchers := by
  obtain ⟨ts, handover⟩ := c
  cases handover with
  | none => cases ts <;> rfl
  | some handover =>
    obtain ⟨file, stage, left, fits⟩ := handover
    cases stage with
    | counted job | pending job => rfl
    | between =>
      cases left with
      | nil => rfl
      | cons job left =>
        rw [turn, handOver]
        split <;> rfl

/-! ### Runs -/

theorem ready_start {settings : Settings} {w : Workspace} (hw : ofSettings settings = .ok w)
    (hworkers : 0 < settings.parse.poolSize) :
    (start w).Ready ∧ (start w).ledger = ⟨0, 0, 0, 0, 0, 0, 0, 0⟩ := by
  rw [ofSettings] at hw
  cases hglobs : settings.validate with
  | error fault => rw [hglobs] at hw; cases hw
  | ok globs =>
    rw [hglobs] at hw
    cases hw
    exact ⟨⟨decide_eq_true hworkers, by simp [start]⟩, rfl⟩

theorem Ready.run (h : a.Ready) (hbalanced : a.ledger.Balanced) (ms : List Move) :
    (a.run ms).Ready ∧ (a.run ms).ledger.Balanced := by
  induction ms generalizing a with
  | nil => exact ⟨h, hbalanced⟩
  | cons m ms ih => exact ih (h.move m) ((posting_move h m).balanced hbalanced)

/-! ### Waiting -/

theorem told_lead {i j : Nat} {w : Watcher} (h : (a.lead j w).watchers[i]? = some (.told true)) :
    a.watchers[i]? = some (.told true) ∨ w = .told true := by
  rw [lead, List.getElem?_set] at h
  split at h
  · split at h
    · exact .inr (Option.some.inj h)
    · cases h
  · exact .inl h

/-- Somebody is told that nothing is pending only in a turn that finds the count at zero. -/
theorem told_move (a : Assembly) (m : Move) {i : Nat}
    (h : (a.move m).watchers[i]? = some (.told true)) :
    a.watchers[i]? = some (.told true) ∨ (a.move m).latch = 0 := by
  cases m with
  | arrive op => exact .inl h
  | call n =>
    refine .inl ?_
    rw [move] at h
    split at h
    · rename_i c _
      rw [watchers_turn] at h
      exact h
    · exact h
  | begin n =>
    rw [move] at h
    split at h
    · exact .inl h
    · dsimp only at h
      split at h <;> exact .inl h
  | answer n | settle n | count n | leave =>
    rw [move] at h
    split at h <;> exact .inl h
  | pool m => exact .inl h
  | watch =>
    rw [move, List.getElem?_append] at h
    split at h
    · exact .inl h
    · cases List.mem_singleton.mp (List.mem_of_getElem? h)
  | look j =>
    rw [move] at h ⊢
    split at h
    · refine (told_lead h).imp_right ?_
      intro htold
      by_contra hbusy
      change ¬a.latch = 0 at hbusy
      rw [if_neg hbusy] at htold
      cases htold
    · exact .inl h
  | wake j =>
    rw [move] at h
    split at h
    · refine .inl ((told_lead h).resolve_right ?_)
      intro htold
      cases htold
    · exact .inl h
  | expire j =>
    rw [move] at h ⊢
    split at h
    · refine (told_lead h).imp_right ?_
      rw [Watcher.told.injEq]
      exact beq_iff_eq.mp
    · exact .inl h

end Assembly

namespace Session

theorem pending_of_waitSome {n span : Nat} {s : Session} (h : (waitSome n span s).1 = true) :
    (waitSome n span s).2.workspace.pending = 0 := by
  induction n generalizing span s with
  | zero => exact beq_iff_eq.mp h
  | succ n ih =>
    rw [waitSome] at h ⊢
    dsimp only at h ⊢
    split at h
    · rename_i hnone
      rw [if_pos hnone]
      exact hnone
    · rename_i hsome
      rw [if_neg hsome]
      split at h
      · split at h
        · rename_i hin
          rw [if_pos hin]
          exact ih h
        · cases h
      · cases h

end Session

namespace Assembly

open Ledger

variable {a : Assembly}

/-! ### The ledger of a run -/

/-- Every correction that was counted as scheduled is either counted and not yet pending, or under way,
or it has ended in one of four ways. -/
structure Accounted (a : Assembly) : Prop where
  counts : a.workspace.counts.scheduled = a.workspace.counts.applied + a.workspace.counts.stale +
    a.workspace.counts.rejected + a.workspace.counts.inconclusive + a.underway.length + a.counted.length
  latch : a.latch = a.underway.length + a.leaving
  /-- Corrections are counted before they are pending, and go out of the pending count after they have
  ended. -/
  pending : a.workspace.counts.scheduled + a.leaving = a.workspace.counts.applied +
    a.workspace.counts.stale + a.workspace.counts.rejected + a.workspace.counts.inconclusive +
    a.latch + a.counted.length
  reported : a.workspace.counts.scheduled =
    (a.reported.map (·.ambiguities)).sum + (a.callers.map Caller.handed).sum

/-- What is right when somebody who waits is told that nothing is pending. -/
structure Done (a : Assembly) : Prop where
  latch : a.latch = 0
  underway : a.underway = []
  counts : a.workspace.counts.scheduled = a.workspace.counts.applied + a.workspace.counts.stale +
    a.workspace.counts.rejected + a.workspace.counts.inconclusive + a.counted.length

theorem accounted_of_balanced (h : a.ledger.Balanced) : a.Accounted := by
  obtain ⟨hended, hreported, hlatch⟩ := h
  simp only [ledger, CorrectionCounts.ended] at hended hreported hlatch
  constructor <;> omega

theorem done_of_balanced (h : a.ledger.Balanced) (hlatch : a.latch = 0) : a.Done := by
  obtain ⟨hcounts, hunderway, _, _⟩ := accounted_of_balanced h
  rw [hlatch] at hunderway
  refine ⟨hlatch, List.eq_nil_of_length_eq_zero (by omega), by omega⟩

/-- What holds between any two moves of a workspace with workers. -/
structure Sound (a : Assembly) : Prop where
  accounted : a.Accounted
  /-- When no file is being indexed, its corrections are those that were reported. -/
  idle : (∀ c ∈ a.callers, c.handover = none) → a.counted = [] ∧
    a.workspace.counts.scheduled = (a.reported.map (·.ambiguities)).sum
  told : ∀ (m : Move) (i : Nat), a.watchers[i]? ≠ some (.told true) →
    (a.move m).watchers[i]? = some (.told true) → (a.move m).Done
  waits : ∀ parser waiting span, (Session.wait ⟨a.workspace, parser, waiting⟩ span).1 = true →
    (Session.wait ⟨a.workspace, parser, waiting⟩ span).2.workspace.pending = 0

theorem idle_of_accounted (h : a.Accounted) (hnone : ∀ c ∈ a.callers, c.handover = none) :
    a.counted = [] ∧ a.workspace.counts.scheduled = (a.reported.map (·.ambiguities)).sum := by
  constructor
  · rw [counted, List.flatMap_eq_nil_iff]
    intro c hc
    rw [Caller.counted, hnone c hc]
  · have hhanded : (a.callers.map Caller.handed).sum = 0 := by
      rw [List.sum_eq_zero_iff_forall_eq_nat]
      intro n hn
      obtain ⟨c, hc, rfl⟩ := List.mem_map.mp hn
      rw [Caller.handed, hnone c hc]
    have hreported := h.reported
    rw [hhanded] at hreported
    exact hreported

/-- Every run of a workspace with workers keeps its accounts. -/
theorem corrections_accounted {settings : Settings} {w : Workspace}
    (hw : ofSettings settings = .ok w) (hworkers : 0 < settings.parse.poolSize) (ms : List Move) :
    ((start w).run ms).Sound := by
  obtain ⟨hready, hstart⟩ := ready_start hw hworkers
  have hfirst : (start w).ledger.Balanced := by
    rw [hstart]
    constructor <;> rfl
  obtain ⟨hready, hbalanced⟩ := hready.run hfirst ms
  constructor
  case accounted => exact accounted_of_balanced hbalanced
  case idle => exact idle_of_accounted (accounted_of_balanced hbalanced)
  case told =>
    intro m i hbefore hafter
    have hlatch := (told_move _ m hafter).resolve_left hbefore
    exact done_of_balanced ((posting_move hready m).balanced hbalanced) hlatch
  case waits => exact fun parser waiting span => Session.pending_of_waitSome

/-- A schema and an update are indexed while somebody waits, and the worker finds the tree of the
update. -/
def sampleMoves : List Move :=
  [.arrive (.indexFile "s.sql" Execution.sampleSchema), .call 0, .call 0,
    .arrive (.indexFile "q.sql" Execution.sampleUpdate), .call 1, .call 1, .call 1, .call 1,
    .watch, .look 0, .call 1, .begin 0, .pool (.proceed 0), .pool (.proceed 0), .pool (.proceed 0),
    .pool (.parse 0 (.parsed Execution.sampleTree)), .pool (.report 0), .pool (.proceed 0),
    .pool (.proceed 0), .answer 0, .settle 0, .count 0, .leave, .wake 0]

theorem run_sampleMoves :
    let a := (start ⟨{}, [], {}, {}, [], []⟩).run sampleMoves
    (∀ c ∈ a.callers, c.handover = none) ∧ a.workspace.counts = { scheduled := 1, applied := 1 } ∧
      a.watchers[0]? ≠ some (.told true) ∧
      (a.move (.look 0)).watchers[0]? = some (.told true) := by
  decide +kernel

theorem corrections_accounted_update :
    let a := (start ⟨{}, [], {}, {}, [], []⟩).run sampleMoves
    0 < ({} : Settings).parse.poolSize ∧
      a.workspace.counts.scheduled = (a.reported.map (·.ambiguities)).sum ∧
      a.workspace.counts = { scheduled := 1, applied := 1 } ∧
      a.watchers[0]? ≠ some (.told true) ∧
      (a.move (.look 0)).watchers[0]? = some (.told true) ∧ (a.move (.look 0)).Done := by
  have hsettings : ofSettings {} = .ok ⟨{}, [], {}, {}, [], []⟩ := rfl
  have hworkers : 0 < ({} : Settings).parse.poolSize := by decide
  obtain ⟨hnone, hcounts, hbefore, hafter⟩ := run_sampleMoves
  have hsound := corrections_accounted hsettings hworkers sampleMoves
  exact ⟨hworkers, (hsound.idle hnone).2, hcounts, hbefore, hafter, hsound.told (.look 0) 0 hbefore hafter⟩

/-- Whoever waits may be told that nothing is pending while a correction is counted as scheduled and has
not ended. Its file is not reported yet. -/
theorem counted_before_pending :
    let a := (start ⟨{}, [], {}, {}, [], []⟩).run
      [.arrive (.indexFile "s.sql" Execution.sampleSchema), .call 0, .call 0,
        .arrive (.indexFile "q.sql" Execution.sampleUpdate), .call 1, .call 1, .watch, .look 0]
    a.watchers[0]? = some (.told true) ∧ a.latch = 0 ∧ a.workspace.counts = { scheduled := 1 } ∧
      (a.reported.map (·.ambiguities)).sum = 0 := by
  decide +kernel

end Assembly

end SqlAtlas
