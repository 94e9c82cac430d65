import Mathlib.Data.Finset.Card
import Mathlib.Data.List.Nodup
import SqlAtlas.Cache

/-!
# A cache by its history

The log of a history has every key at its latest insertion since the last clearing, in the order of
these insertions, as a cache without limits would. A cache holds the recent end of its log, and
before it at most entries that are expired: an expired entry that a lookup takes out of the middle
leaves only older ones behind, which are expired as well. So a lookup finds an entry of the log
exactly if it is in time and has fewer entries after it than the cache has room for, and lookups
leave no trace in later ones.
-/

namespace SqlAtlas.TtlCache

set_option autoImplicit false

variable {κ α : Type}

inductive Operation (κ α : Type) where
  | insert (k : κ) (v : α)
  | get (k : κ)
  | contains (k : κ)
  | clear
  | advance (span : Nat)

namespace Operation

def span : Operation κ α → Nat
  | advance n => n
  | _ => 0

def key? : Operation κ α → Option κ
  | insert k _ => some k
  | _ => none

end Operation

def clock (start : Nat) (ops : List (Operation κ α)) : Nat :=
  ops.foldl (fun now op => now + op.span) start

def insertedKeys (ops : List (Operation κ α)) : List κ := ops.filterMap Operation.key?

variable [DecidableEq κ]

def apply (c : TtlCache κ α) : Operation κ α → TtlCache κ α
  | .insert k v => c.insert k v
  | .get k => (c.get k).2
  | .contains k => (c.contains k).2
  | .clear => c.clear
  | .advance span => c.advance span

def run (c : TtlCache κ α) (ops : List (Operation κ α)) : TtlCache κ α := ops.foldl apply c

def without (k : κ) (es : List (CacheEntry κ α)) : List (CacheEntry κ α) :=
  es.filter fun e => decide (e.key ≠ k)

def record (now : Nat) (log : List (CacheEntry κ α)) : Operation κ α → List (CacheEntry κ α)
  | .insert k v => without k log ++ [⟨k, v, now⟩]
  | .clear => []
  | _ => log

def logFrom (now : Nat) (log : List (CacheEntry κ α)) : List (Operation κ α) → List (CacheEntry κ α)
  | [] => log
  | op :: ops => logFrom (now + op.span) (record now log op) ops

theorem mem_without {k : κ} {es : List (CacheEntry κ α)} {e : CacheEntry κ α} :
    e ∈ without k es ↔ e ∈ es ∧ e.key ≠ k := by
  simp [without]

theorem without_append (k : κ) (es fs : List (CacheEntry κ α)) :
    without k (es ++ fs) = without k es ++ without k fs := List.filter_append _ _

theorem without_eq_self {k : κ} {es : List (CacheEntry κ α)} (h : ∀ e ∈ es, e.key ≠ k) :
    without k es = es :=
  List.filter_eq_self.mpr fun e he => by simpa using h e he

theorem erase_eq (c : TtlCache κ α) (k : κ) : c.erase k = { c with entries := without k c.entries } :=
  rfl

/-- The keys with one more of them, which may have been there. -/
theorem toFinset_without_append (es : List (CacheEntry κ α)) (e : CacheEntry κ α) :
    ((without e.key es ++ [e]).map CacheEntry.key).toFinset =
      {e.key} ∪ (es.map CacheEntry.key).toFinset := by
  ext j
  rw [Finset.mem_union, Finset.mem_singleton, List.mem_toFinset, List.mem_toFinset, List.map_append,
    List.mem_append, List.map_singleton, List.mem_singleton, Or.comm, List.mem_map, List.mem_map]
  by_cases hj : j = e.key
  · simp [hj]
  · refine or_congr_right ⟨?_, ?_⟩
    · rintro ⟨f, hf, rfl⟩
      exact ⟨f, (mem_without.mp hf).1, rfl⟩
    · rintro ⟨f, hf, rfl⟩
      exact ⟨f, mem_without.mpr ⟨hf, hj⟩, rfl⟩

/-- A key that occurs once takes one entry with it. -/
theorem length_le_without (k : κ) {es : List (CacheEntry κ α)} (h : (es.map (·.key)).Nodup) :
    es.length ≤ (without k es).length + 1 := by
  induction es with
  | nil => simp
  | cons e es ih =>
    obtain ⟨hfresh, h⟩ := List.nodup_cons.mp h
    by_cases hk : e.key = k
    · have hrest : without k es = es := by
        apply without_eq_self
        rintro f hf rfl
        exact hfresh (List.mem_map.mpr ⟨f, hf, hk.symm⟩)
      have hcons : without k (e :: es) = without k es := List.filter_cons_of_neg (by simpa using hk)
      rw [hcons, hrest, List.length_cons]
    · have hcons : without k (e :: es) = e :: without k es :=
        List.filter_cons_of_pos (by simpa using hk)
      rw [hcons, List.length_cons, List.length_cons]
      exact Nat.succ_le_succ (ih h)

/-! ### A cache holds the recent end of its log -/

/-- A cache holds a recent part of a log and nothing else that is in time; it has lost only what is
expired, or has no more room. -/
structure Tracks (c : TtlCache κ α) (log : List (CacheEntry κ α)) : Prop where
  distinct : (log.map (·.key)).Nodup
  ordered : log.Pairwise fun e f => e.inserted ≤ f.inserted
  past : ∀ e ∈ log, e.inserted ≤ c.now
  bounded : c.entries.length ≤ c.capacity
  shared : ∃ stale lost recent, c.entries = stale ++ recent ∧ log = lost ++ recent ∧
    stale.Sublist lost ∧ ((∀ e ∈ lost, c.isExpired e = true) ∨ recent.length = c.capacity)

omit [DecidableEq κ] in
theorem tracks_fresh (capacity ttl start : Nat) :
    Tracks ⟨capacity, ttl, start, []⟩ ([] : List (CacheEntry κ α)) where
  distinct := List.nodup_nil
  ordered := List.Pairwise.nil
  past e he := by cases he
  bounded := Nat.zero_le _
  shared := ⟨[], [], [], rfl, rfl, List.Sublist.slnil, .inl fun e he => by cases he⟩

section

variable {c : TtlCache κ α} {log : List (CacheEntry κ α)} (h : Tracks c log)

include h

omit [DecidableEq κ] in
theorem Tracks.advance (span : Nat) : Tracks (c.advance span) log where
  distinct := h.distinct
  ordered := h.ordered
  past e he := Nat.le_trans (h.past e he) (Nat.le_add_right _ _)
  bounded := h.bounded
  shared := by
    obtain ⟨stale, lost, recent, hentries, hlog, hstale, hlost⟩ := h.shared
    refine ⟨stale, lost, recent, hentries, hlog, hstale, hlost.imp_left fun hexpired e he => ?_⟩
    have hbefore := hexpired e he
    rw [isExpired, decide_eq_true_eq] at hbefore ⊢
    change c.ttl < c.now + span - e.inserted
    omega

theorem Tracks.insert (k : κ) (v : α) : Tracks (c.insert k v) (record c.now log (.insert k v)) := by
  obtain ⟨stale, lost, recent, hentries, hlog, hstale, hlost⟩ := h.shared
  have hbounded := h.bounded
  have hwithout : (without k log).Sublist log := List.filter_sublist
  have hdistinct : ((record c.now log (.insert k v)).map (·.key)).Nodup := by
    rw [record, List.map_append, List.nodup_append]
    refine ⟨h.distinct.sublist (hwithout.map _), List.nodup_singleton _, ?_⟩
    rintro _ hold _ hnew rfl
    obtain ⟨e, he, hkey⟩ := List.mem_map.mp hold
    exact (mem_without.mp he).2 (hkey.trans (List.mem_singleton.mp hnew))
  have hordered : (record c.now log (.insert k v)).Pairwise fun e f => e.inserted ≤ f.inserted := by
    rw [record, List.pairwise_append]
    refine ⟨h.ordered.sublist hwithout, List.pairwise_singleton _ _, fun e he f hf => ?_⟩
    rw [List.mem_singleton.mp hf]
    exact h.past e (hwithout.subset he)
  have hpast : ∀ e ∈ record c.now log (.insert k v), e.inserted ≤ c.now := by
    intro e he
    rcases List.mem_append.mp he with he | he
    · exact h.past e (hwithout.subset he)
    · rw [List.mem_singleton.mp he]
  by_cases hroom : c.capacity = 0
  · have hnone : c.insert k v = c := by rw [TtlCache.insert, if_pos hroom]
    have hempty : c.entries = [] := List.eq_nil_of_length_eq_zero (by omega)
    rw [hnone]
    exact ⟨hdistinct, hordered, hpast, hbounded, [], _, [], hempty, (List.append_nil _).symm,
      List.nil_sublist _, .inr hroom.symm⟩
  -- the new entry follows what is shared, and the oldest entries make room for it
  obtain ⟨suffix, hsuffix⟩ : ∃ suffix, suffix = without k recent ++ [⟨k, v, c.now⟩] := ⟨_, rfl⟩
  have hinsert : c.insert k v = trim { c with entries := without k stale ++ suffix } := by
    rw [TtlCache.insert, if_neg hroom]
    change trim { c with entries := without k c.entries ++ [⟨k, v, c.now⟩] } = _
    rw [hentries, without_append, hsuffix, List.append_assoc]
  have hrecord : record c.now log (.insert k v) = without k lost ++ suffix := by
    rw [record, hlog, without_append, hsuffix, List.append_assoc]
  have hlength : recent.length ≤ suffix.length := by
    have hdistinct := h.distinct
    rw [hlog, List.map_append, List.nodup_append] at hdistinct
    rw [hsuffix, List.length_append, List.length_singleton]
    exact length_le_without k hdistinct.2.1
  refine ⟨hdistinct, hordered, by rw [hinsert]; exact hpast, ?_, ?_⟩
  · rw [hinsert, trim]
    simp only [List.length_drop]
    omega
  rw [hinsert, trim, hrecord]
  by_cases hfull : c.capacity ≤ suffix.length
  · refine ⟨[], without k lost ++ suffix.take (suffix.length - c.capacity),
      suffix.drop (suffix.length - c.capacity), ?_, ?_, List.nil_sublist _, .inr ?_⟩
    · have hdrop : (without k stale ++ suffix).length - c.capacity =
          (without k stale).length + (suffix.length - c.capacity) := by
        rw [List.length_append]
        omega
      rw [hdrop, List.nil_append, List.drop_length_add_append]
    · rw [List.append_assoc, List.take_append_drop]
    · rw [List.length_drop]
      exact Nat.sub_sub_self hfull
  · refine ⟨(without k stale).drop ((without k stale ++ suffix).length - c.capacity),
      without k lost, suffix, ?_, rfl, ?_, .inl ?_⟩
    · apply List.drop_append_of_le_length
      change (without k stale ++ suffix).length - c.capacity ≤ _
      rw [List.length_append]
      omega
    · exact (List.drop_sublist _ _).trans (hstale.filter _)
    · rcases hlost with hexpired | hlength'
      · exact fun f hf => hexpired f (mem_without.mp hf).1
      · omega

theorem Tracks.get (k : κ) : Tracks (c.get k).2 log := by
  rw [TtlCache.get]
  split
  · exact h
  rename_i e hfind
  split
  rotate_left
  · exact h
  rename_i hexpired
  obtain ⟨stale, lost, recent, hentries, hlog, hstale, hlost⟩ := h.shared
  have hkey : e.key = k := by simpa using List.find?_some hfind
  have hmem : e ∈ stale ++ recent := hentries ▸ List.mem_of_find?_eq_some hfind
  have hdistinct := h.distinct
  have hordered := h.ordered
  rw [erase_eq, hentries, without_append]
  refine ⟨h.distinct, h.ordered, h.past, ?_, ?_⟩
  · have hbounded := h.bounded
    rw [hentries] at hbounded
    have hless : (without k (stale ++ recent)).length ≤ (stale ++ recent).length :=
      List.length_filter_le _ _
    rw [without_append] at hless
    exact hless.trans hbounded
  by_cases hrecent : e ∈ recent
  · -- whatever is older than an expired entry is expired
    obtain ⟨older, newer, rfl⟩ := List.append_of_mem hrecent
    have hsplit : log = (lost ++ older) ++ e :: newer := by rw [hlog, List.append_assoc]
    rw [hsplit, List.map_append, List.nodup_append, List.map_cons, List.nodup_cons] at hdistinct
    rw [hsplit, List.pairwise_append] at hordered
    have hnewer : without k (older ++ e :: newer) = without k older ++ newer := by
      rw [without_append]
      congr 1
      have hskip : without k (e :: newer) = without k newer :=
        List.filter_cons_of_neg (by simpa using hkey)
      rw [hskip]
      apply without_eq_self
      rintro f hf rfl
      exact hdistinct.2.1.1 (List.mem_map.mpr ⟨f, hf, hkey.symm⟩)
    refine ⟨without k stale ++ without k older, lost ++ older ++ [e], newer, ?_, ?_, ?_, .inl ?_⟩
    · rw [hnewer, List.append_assoc]
    · rw [hsplit, List.append_assoc (lost ++ older), List.singleton_append]
    · have holder : (without k older).Sublist older := List.filter_sublist
      exact ((List.filter_sublist.trans hstale).append holder).trans (List.sublist_append_left _ _)
    · intro f hf
      have hle : f.inserted ≤ e.inserted := by
        rcases List.mem_append.mp hf with hf | hf
        · exact hordered.2.2 f hf e List.mem_cons_self
        · rw [List.mem_singleton.mp hf]
      simp only [isExpired, decide_eq_true_eq] at hexpired ⊢
      omega
  · have he : e ∈ stale := (List.mem_append.mp hmem).resolve_right hrecent
    have hsame : without k recent = recent := by
      apply without_eq_self
      rintro f hf rfl
      rw [hlog, List.map_append, List.nodup_append] at hdistinct
      exact hdistinct.2.2 _ (List.mem_map_of_mem (hstale.subset he)) _ (List.mem_map_of_mem hf) hkey
    rw [hsame]
    exact ⟨_, lost, recent, rfl, hlog, List.filter_sublist.trans hstale, hlost⟩

theorem Tracks.apply (op : Operation κ α) : Tracks (c.apply op) (record c.now log op) := by
  cases op with
  | insert k v => exact h.insert k v
  | get k => exact h.get k
  | contains k => exact h.get k
  | clear => exact tracks_fresh c.capacity c.ttl c.now
  | advance span => exact h.advance span

end

theorem get_settings (c : TtlCache κ α) (k : κ) :
    (c.get k).2.capacity = c.capacity ∧ (c.get k).2.ttl = c.ttl ∧ (c.get k).2.now = c.now := by
  rw [get]
  split
  · exact ⟨rfl, rfl, rfl⟩
  · split <;> exact ⟨rfl, rfl, rfl⟩

theorem apply_settings (c : TtlCache κ α) (op : Operation κ α) :
    (c.apply op).capacity = c.capacity ∧ (c.apply op).ttl = c.ttl ∧
      (c.apply op).now = c.now + op.span := by
  cases op with
  | insert k v =>
    rw [apply, insert]
    split <;> exact ⟨rfl, rfl, rfl⟩
  | get k => exact c.get_settings k
  | contains k => exact c.get_settings k
  | clear => exact ⟨rfl, rfl, rfl⟩
  | advance span => exact ⟨rfl, rfl, rfl⟩

theorem run_tracks {c : TtlCache κ α} {log : List (CacheEntry κ α)} (h : Tracks c log)
    (ops : List (Operation κ α)) : Tracks (c.run ops) (logFrom c.now log ops) ∧
      (c.run ops).capacity = c.capacity ∧ (c.run ops).ttl = c.ttl ∧
      (c.run ops).now = clock c.now ops := by
  induction ops generalizing c log with
  | nil => exact ⟨h, rfl, rfl, rfl⟩
  | cons op ops ih =>
    obtain ⟨hcapacity, httl, hnow⟩ := c.apply_settings op
    have hrest := ih (h.apply op)
    rw [hcapacity, httl, hnow] at hrest
    exact hrest

/-- A lookup finds what the log has in time and near enough to its end. -/
theorem Tracks.get_eq_some_iff {c : TtlCache κ α} {log : List (CacheEntry κ α)} (h : Tracks c log)
    (k : κ) (v : α) : (c.get k).1 = some v ↔ ∃ older newer inserted,
      log = older ++ ⟨k, v, inserted⟩ :: newer ∧ c.now - inserted ≤ c.ttl ∧
        newer.length < c.capacity := by
  obtain ⟨stale, lost, recent, hentries, hlog, hstale, hlost⟩ := h.shared
  have hbounded := h.bounded
  rw [hentries, List.length_append] at hbounded
  constructor
  · intro hget
    rw [TtlCache.get] at hget
    split at hget
    · cases hget
    rename_i e hfind
    split at hget
    · cases hget
    rename_i hfresh
    cases hget
    have hkey : e.key = k := by simpa using List.find?_some hfind
    have hmem : e ∈ stale ++ recent := hentries ▸ List.mem_of_find?_eq_some hfind
    have hrecent : e ∈ recent := by
      refine (List.mem_append.mp hmem).resolve_left fun he => ?_
      rcases hlost with hexpired | hfull
      · exact hfresh (hexpired e (hstale.subset he))
      · have hpos := List.length_pos_of_mem he
        omega
    obtain ⟨older, newer, rfl⟩ := List.append_of_mem hrecent
    refine ⟨lost ++ older, newer, e.inserted, ?_, ?_, ?_⟩
    · rw [hlog, List.append_assoc, ← hkey]
    · simpa [isExpired] using hfresh
    · rw [List.length_append, List.length_cons] at hbounded
      omega
  · rintro ⟨older, newer, inserted, hsplit, htime, hroom⟩
    have hfresh : c.isExpired ⟨k, v, inserted⟩ = false := by
      rw [isExpired, decide_eq_false_iff_not]
      exact Nat.not_lt.mpr htime
    have hrecent : ⟨k, v, inserted⟩ ∈ recent := by
      rcases List.append_eq_append_iff.mp (hlog.symm.trans hsplit) with
        ⟨middle, rfl, hcut⟩ | ⟨middle, rfl, hcut⟩
      · rw [hcut]
        exact List.mem_append_right _ List.mem_cons_self
      · cases middle with
        | nil =>
          rw [List.nil_append] at hcut
          rw [← hcut]
          exact List.mem_cons_self
        | cons e middle =>
          -- an entry in time is lost only to as many newer ones as there is room for
          obtain ⟨rfl, rfl⟩ : (⟨k, v, inserted⟩ : CacheEntry κ α) = e ∧ newer = middle ++ recent :=
            List.cons.inj hcut
          rcases hlost with hexpired | hfull
          · rw [hexpired _ (by simp)] at hfresh
            cases hfresh
          · rw [List.length_append] at hroom
            omega
    have hdistinct : ((stale ++ recent).map (·.key)).Nodup := by
      have hdistinct := h.distinct
      rw [hlog] at hdistinct
      exact hdistinct.sublist ((hstale.append_right recent).map _)
    have hfind : c.find? k = some ⟨k, v, inserted⟩ := by
      rw [find?, hentries]
      cases hfound : (stale ++ recent).find? (fun e => decide (e.key = k)) with
      | none =>
        have hno := List.find?_eq_none.mp hfound _ (List.mem_append_right stale hrecent)
        simp at hno
      | some e =>
        have hkey : e.key = k := by simpa using List.find?_some hfound
        rw [List.inj_on_of_nodup_map hdistinct (List.mem_of_find?_eq_some hfound)
          (List.mem_append_right stale hrecent) hkey]
    rw [TtlCache.get, hfind]
    simp only [hfresh]
    rfl

/-! ### The log of a history -/

theorem logFrom_append (now : Nat) (log : List (CacheEntry κ α)) (ops more : List (Operation κ α)) :
    logFrom now log (ops ++ more) = logFrom (clock now ops) (logFrom now log ops) more := by
  induction ops generalizing now log with
  | nil => rfl
  | cons op ops ih => exact ih (now + op.span) (record now log op)

/-- Operations that neither clear the cache nor insert a key. -/
def Spares (k : κ) (ops : List (Operation κ α)) : Prop := .clear ∉ ops ∧ ∀ w, .insert k w ∉ ops

/-- An entry stays where it is in the log, and every key that is inserted gets behind it once. -/
theorem logFrom_spares (now : Nat) (older newer : List (CacheEntry κ α)) (e : CacheEntry κ α)
    {ops : List (Operation κ α)} (h : Spares e.key ops) : ∃ older' newer',
      logFrom now (older ++ e :: newer) ops = older' ++ e :: newer' ∧
        (newer'.map (·.key)).toFinset = (newer.map (·.key)).toFinset ∪ (insertedKeys ops).toFinset := by
  induction ops generalizing now older newer with
  | nil => exact ⟨older, newer, rfl, by simp [insertedKeys]⟩
  | cons op ops ih =>
    have hrest : Spares e.key ops := ⟨fun hc => h.1 (List.mem_cons_of_mem _ hc),
      fun w hw => h.2 w (List.mem_cons_of_mem _ hw)⟩
    cases op with
    | insert k v =>
      have hk : e.key ≠ k := by
        rintro rfl
        exact h.2 v List.mem_cons_self
      have hrecord : record now (older ++ e :: newer) (.insert k v) =
          without k older ++ e :: (without k newer ++ [⟨k, v, now⟩]) := by
        have hcons : without k (e :: newer) = e :: without k newer :=
          List.filter_cons_of_pos (by simpa using hk)
        rw [record, without_append, hcons, List.append_assoc, List.cons_append]
      obtain ⟨older', newer', hlog, hkeys⟩ := ih now (without k older)
        (without k newer ++ [⟨k, v, now⟩]) hrest
      refine ⟨older', newer', ?_, ?_⟩
      · rw [logFrom, hrecord]
        exact hlog
      · have hinserted : insertedKeys (.insert k v :: ops) = k :: insertedKeys ops := rfl
        rw [hkeys, toFinset_without_append newer ⟨k, v, now⟩, hinserted, List.toFinset_cons,
          Finset.union_insert, Finset.union_assoc, Finset.insert_eq]
    | clear => exact absurd List.mem_cons_self h.1
    | get k => exact ih now older newer hrest
    | contains k => exact ih now older newer hrest
    | advance span => exact ih (now + span) older newer hrest

/-- Every entry of the log was there before, or is a latest insertion. -/
theorem exists_of_mem_logFrom {now : Nat} {log : List (CacheEntry κ α)} {ops : List (Operation κ α)}
    {e : CacheEntry κ α} (h : e ∈ logFrom now log ops) : e ∈ log ∧ Spares e.key ops ∨
      ∃ before after, ops = before ++ .insert e.key e.value :: after ∧
        e.inserted = clock now before ∧ Spares e.key after := by
  induction ops generalizing now log with
  | nil => exact .inl ⟨h, by simp [Spares]⟩
  | cons op ops ih =>
    rcases ih h with ⟨hrecord, hspares⟩ | ⟨before, after, rfl, hinserted, hspares⟩
    · have hkeep : e ∈ log → op ≠ .clear → (∀ w, op ≠ .insert e.key w) →
          e ∈ log ∧ Spares e.key (op :: ops) := by
        intro he hclear hinsert
        refine ⟨he, fun hc => ?_, fun w hw => ?_⟩
        · exact hspares.1 (List.mem_of_ne_of_mem hclear.symm hc)
        · exact hspares.2 w (List.mem_of_ne_of_mem (hinsert w).symm hw)
      cases op with
      | insert k v =>
        rcases List.mem_append.mp hrecord with hold | hnew
        · obtain ⟨hold, hk⟩ := mem_without.mp hold
          exact .inl (hkeep hold nofun fun w heq => hk (by cases heq; rfl))
        · rw [List.mem_singleton.mp hnew] at hspares ⊢
          exact .inr ⟨[], ops, rfl, rfl, hspares⟩
      | clear => cases hrecord
      | get k => exact .inl (hkeep hrecord nofun nofun)
      | contains k => exact .inl (hkeep hrecord nofun nofun)
      | advance span => exact .inl (hkeep hrecord nofun nofun)
    · exact .inr ⟨op :: before, after, rfl, hinserted, hspares⟩

/-- The log has the latest insertions, each with the keys inserted since behind it. -/
theorem logFrom_split_iff {start : Nat} {history : List (Operation κ α)}
    (hdistinct : ((logFrom start [] history).map (·.key)).Nodup) (k : κ) (v : α) (inserted n : Nat) :
    (∃ older newer, logFrom start [] history = older ++ ⟨k, v, inserted⟩ :: newer ∧
      newer.length = n) ↔
    ∃ before after, history = before ++ .insert k v :: after ∧ Spares k after ∧
      inserted = clock start before ∧ (insertedKeys after).toFinset.card = n := by
  have hplace : ∀ {before after}, history = before ++ .insert k v :: after → Spares k after →
      ∃ older newer, logFrom start [] history = older ++ ⟨k, v, clock start before⟩ :: newer ∧
        newer.length = (insertedKeys after).toFinset.card := by
    rintro before after rfl hspares
    obtain ⟨older, newer, hlog, hkeys⟩ := logFrom_spares (clock start before)
      (without k (logFrom start [] before)) [] ⟨k, v, clock start before⟩ hspares
    have hwhole : logFrom start [] (before ++ .insert k v :: after) =
        older ++ ⟨k, v, clock start before⟩ :: newer := by
      rw [logFrom_append, logFrom]
      exact hlog
    refine ⟨older, newer, hwhole, ?_⟩
    rw [hwhole, List.map_append, List.nodup_append, List.map_cons, List.nodup_cons] at hdistinct
    have hcard := List.toFinset_card_of_nodup hdistinct.2.1.2
    rw [hkeys, List.length_map] at hcard
    simpa using hcard.symm
  constructor
  · rintro ⟨older, newer, hlog, rfl⟩
    have hmem : ⟨k, v, inserted⟩ ∈ logFrom start [] history := by
      rw [hlog]
      exact List.mem_append_right _ List.mem_cons_self
    rcases exists_of_mem_logFrom hmem with ⟨hnil, _⟩ | ⟨before, after, hhistory, hinserted, hspares⟩
    · cases hnil
    obtain ⟨older', newer', hlog', hlength⟩ := hplace hhistory hspares
    have hsame : older ++ (⟨k, v, inserted⟩ : CacheEntry κ α) :: newer =
        older' ++ ⟨k, v, inserted⟩ :: newer' := by
      rw [← hlog, hlog', ← hinserted]
    have hnodup := List.Nodup.of_map _ hdistinct
    rw [hlog, List.nodup_append, List.nodup_cons] at hnodup
    have hother : (⟨k, v, inserted⟩ : CacheEntry κ α) ∉ older :=
      fun he => hnodup.2.2 _ he _ List.mem_cons_self rfl
    rw [List.append_cons_inj_of_notMem hother hnodup.2.1.1] at hsame
    exact ⟨before, after, hhistory, hspares, hinserted, by rw [← hlength, hsame.2.2]⟩
  · rintro ⟨before, after, hhistory, hspares, rfl, rfl⟩
    exact hplace hhistory hspares

theorem get_congr {c d : TtlCache κ α} {log : List (CacheEntry κ α)} (hc : Tracks c log)
    (hd : Tracks d log) (hcapacity : c.capacity = d.capacity) (httl : c.ttl = d.ttl)
    (hnow : c.now = d.now) (k : κ) : (c.get k).1 = (d.get k).1 := by
  apply Option.ext
  intro v
  rw [hc.get_eq_some_iff, hd.get_eq_some_iff, hcapacity, httl, hnow]

/-- A cache never holds more than it has room for. A lookup answers a value exactly if there is room
at all and the latest insertion of the key since the last clearing was of that value, is in time,
and has been followed by insertions of fewer other keys than there is room for. A lookup makes no
difference to what later lookups find. -/
theorem get_eq_latest_insertion (capacity ttl start : Nat) (history : List (Operation κ α)) :
    let c := run ⟨capacity, ttl, start, []⟩ history
    c.size ≤ capacity ∧
    (∀ k v, (c.get k).1 = some v ↔ 0 < capacity ∧ ∃ before after,
      history = before ++ .insert k v :: after ∧ .clear ∉ after ∧ (∀ w, .insert k w ∉ after) ∧
        clock start history - clock start before ≤ ttl ∧
        (insertedKeys after).toFinset.card < capacity) ∧
    (∀ k, (c.contains k).1 = (c.get k).1.isSome) ∧
    ∀ k later j,
      ((c.run (.get k :: later)).get j).1 = ((c.run later).get j).1 ∧
        ((c.run (.contains k :: later)).get j).1 = ((c.run later).get j).1 := by
  intro c
  obtain ⟨htracks, hcapacity, httl, hnow⟩ :=
    run_tracks (tracks_fresh (κ := κ) (α := α) capacity ttl start) history
  refine ⟨htracks.bounded.trans (Nat.le_of_eq hcapacity), fun k v => ?_, fun _ => rfl,
    fun k later j => ?_⟩
  · have hsplit := logFrom_split_iff htracks.distinct k v
    refine (htracks.get_eq_some_iff k v).trans ?_
    rw [hcapacity, httl, hnow]
    constructor
    · rintro ⟨older, newer, inserted, hlog, htime, hroom⟩
      obtain ⟨before, after, hhistory, ⟨hclear, hinsert⟩, rfl, hcard⟩ :=
        (hsplit inserted newer.length).mp ⟨older, newer, hlog, rfl⟩
      exact ⟨Nat.lt_of_le_of_lt (Nat.zero_le _) hroom, before, after, hhistory, hclear, hinsert,
        htime, hcard ▸ hroom⟩
    · rintro ⟨_, before, after, hhistory, hclear, hinsert, htime, hroom⟩
      obtain ⟨older, newer, hlog, hlength⟩ :=
        (hsplit _ _).mpr ⟨before, after, hhistory, ⟨hclear, hinsert⟩, rfl, rfl⟩
      exact ⟨older, newer, _, hlog, htime, hlength ▸ hroom⟩
  · -- the cache after a lookup has the same log
    obtain ⟨hcapacity', httl', hnow'⟩ := c.get_settings k
    obtain ⟨hlater, hc, ht, hn⟩ := run_tracks htracks later
    obtain ⟨hlater', hc', ht', hn'⟩ := run_tracks (htracks.get k) later
    rw [hnow'] at hlater' hn'
    have hsame := get_congr hlater' hlater (by rw [hc', hcapacity', hc]) (by rw [ht', httl', ht])
      (by rw [hn', hn]) j
    exact ⟨hsame, hsame⟩

end SqlAtlas.TtlCache
