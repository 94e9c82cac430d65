import SqlAtlas.Supervisor.Backoff

/-!
# How pauses grow

The pause after a failure is twice the one before, up to the cap, as long as no more than thirty-two
failures are counted; then it stays. A machine computes it without a fault, and what it computes is the
pause of the policy.
-/

namespace SqlAtlas

set_option autoImplicit false

/-! ### Pauses of a policy -/

namespace RestartPolicy

variable {p : RestartPolicy} {failures d : Nat}

theorem delay?_eq_none_iff : p.delay? failures = none ↔ p.maxFailures ≤ failures := by
  rw [delay?]
  split
  · rename_i h
    exact iff_of_true rfl h
  · rename_i h
    exact iff_of_false nofun h

theorem delay?_of_lt (h : failures < p.maxFailures) :
    p.delay? failures = some (min (p.baseDelay <<< min (failures - 1) 31) p.maxDelay) := by
  rw [delay?, if_neg (Nat.not_le.mpr h)]

theorem delay?_one (hdelays : p.baseDelay ≤ p.maxDelay) (h : 1 < p.maxFailures) :
    p.delay? 1 = some p.baseDelay := by
  rw [delay?_of_lt h, Nat.sub_self, Nat.zero_min, Nat.shiftLeft_zero, Nat.min_eq_left hdelays]

/-- One more failure doubles the pause up to the cap, as long as the doubling goes on. -/
theorem delay?_succ (hpos : 1 ≤ failures) (hdoubles : failures ≤ 31) (hlt : failures + 1 < p.maxFailures)
    (h : p.delay? failures = some d) : p.delay? (failures + 1) = some (min (2 * d) p.maxDelay) := by
  rw [delay?_of_lt (by omega), Option.some.injEq] at h
  have hexponent : min (failures + 1 - 1) 31 = min (failures - 1) 31 + 1 := by omega
  rw [delay?_of_lt hlt, hexponent, Nat.shiftLeft_succ, ← h]
  congr 1
  omega

/-- Once the doubling has ended the pause stays. -/
theorem delay?_stays (hends : 32 ≤ failures) (hlt : failures + 1 < p.maxFailures) :
    p.delay? (failures + 1) = p.delay? failures := by
  have hend : min (failures - 1) 31 = 31 := by omega
  have hend' : min (failures + 1 - 1) 31 = 31 := by omega
  rw [delay?_of_lt hlt, delay?_of_lt (by omega), hend, hend']

/-- A policy with its times counted in a unit that goes so many times into the one before. -/
def inUnits (p : RestartPolicy) (parts : Nat) : RestartPolicy :=
  ⟨parts * p.baseDelay, parts * p.maxDelay, p.maxFailures⟩

/-- A policy gives the same pauses in every unit. -/
theorem delay?_inUnits (p : RestartPolicy) (parts failures : Nat) :
    (p.inUnits parts).delay? failures = (p.delay? failures).map (parts * ·) := by
  rw [delay?, delay?, inUnits]
  split
  · rfl
  · rw [Option.map_some, Nat.shiftLeft_eq, Nat.shiftLeft_eq, Nat.mul_assoc, Nat.mul_min_mul_left]

end RestartPolicy

/-! ### Pauses of a machine -/

namespace Backoff

variable {p : Backoff} {failures : UInt32}

theorem bitAt_of_lt {amount : UInt32} (h : amount.toNat < 32) :
    ∃ factor, bitAt amount = .ok factor ∧ factor.toNat = 1 <<< amount.toNat := by
  refine ⟨1 <<< amount, if_pos (UInt32.lt_iff_toNat_lt.mpr h), ?_⟩
  have hfits : 2 ^ amount.toNat < 2 ^ 32 := Nat.pow_lt_pow_right (by decide) h
  rw [← Nat.one_shiftLeft] at hfits
  rw [UInt32.toNat_shiftLeft, Nat.mod_eq_of_lt h, UInt32.toNat_one, Nat.mod_eq_of_lt hfits]

theorem toNat_exponent (failures : UInt32) :
    (min (if failures = 0 then 0 else failures - 1) 31 : UInt32).toNat = min (failures.toNat - 1) 31 := by
  have hmin : ∀ a b : UInt32, (min a b).toNat = min a.toNat b.toNat := by
    intro a b
    rw [show min a b = if a ≤ b then a else b from rfl]
    split
    · rename_i h
      exact (Nat.min_eq_left (UInt32.le_iff_toNat_le.mp h)).symm
    · rename_i h
      rw [UInt32.le_iff_toNat_le, Nat.not_le] at h
      exact (Nat.min_eq_right (Nat.le_of_lt h)).symm
  rw [hmin]
  congr 1
  split
  · rename_i h
    rw [h]
    rfl
  · rename_i h
    have hpos : 1 ≤ failures.toNat := Nat.one_le_iff_ne_zero.mpr fun h0 => h (UInt32.toNat_inj.mp h0)
    exact UInt32.toNat_sub_of_le _ _ (UInt32.le_iff_toNat_le.mpr hpos)

/-- A product that stops at the longest pause is cut at any cap as the product itself is. -/
theorem nanos_shorter_times (q cap : Pause) (k : UInt32) :
    ((q.times k).shorter cap).nanos = min (q.nanos * k.toNat) cap.nanos := by
  have hcap := cap.nanos_le
  have htimes : (q.times k).nanos = min (q.nanos * k.toNat) longestNanos := rfl
  rw [Pause.shorter]
  split <;> omega

/-- A machine computes the pause of the policy, and no step of it is a fault. -/
theorem delay?_eq (p : Backoff) (failures : UInt32) : ∃ answer, p.delay? failures = .ok answer ∧
    answer.map Pause.nanos = p.policy.delay? failures.toNat := by
  rw [delay?]
  split
  · rename_i hmany
    rw [UInt32.le_iff_toNat_le] at hmany
    exact ⟨none, rfl, (RestartPolicy.delay?_eq_none_iff.mpr hmany).symm⟩
  · rename_i hfew
    rw [UInt32.le_iff_toNat_le, Nat.not_le] at hfew
    have hexponent := toNat_exponent failures
    have hshort : (min (if failures = 0 then 0 else failures - 1) 31).toNat < 32 := by omega
    obtain ⟨factor, hfactor, hvalue⟩ := bitAt_of_lt hshort
    refine ⟨some ((p.base.times factor).shorter p.cap), by simp only [hfactor], ?_⟩
    have hproduct (n k : Nat) : n * 1 <<< k = n <<< k := by
      rw [Nat.shiftLeft_eq, Nat.shiftLeft_eq, Nat.one_mul]
    rw [Option.map_some, nanos_shorter_times, hvalue, hexponent, hproduct, RestartPolicy.delay?_of_lt hfew]
    rfl

/-- What a machine answers is told by the policy. -/
theorem delay?_eq_ok_iff {answer : Option Pause} : p.delay? failures = .ok answer ↔
    answer.map Pause.nanos = p.policy.delay? failures.toNat := by
  obtain ⟨given, hgiven, hnanos⟩ := p.delay?_eq failures
  rw [hgiven, ← hnanos, Except.ok.injEq]
  constructor
  · rintro rfl
    rfl
  · have hinj : ∀ q q' : Pause, q.nanos = q'.nanos → q = q' := by
      rintro ⟨m, _⟩ ⟨n, _⟩ rfl
      rfl
    cases given <;> cases answer <;> simp only [Option.map_none, Option.map_some, reduceCtorEq,
      Option.some.injEq, imp_self]
    exact fun h => hinj _ _ h.symm

theorem toNat_succ_of_lt (h : failures.toNat + 1 < p.maxFailures.toNat) :
    (failures + 1).toNat = failures.toNat + 1 := by
  have hword := p.maxFailures.toNat_lt
  rw [UInt32.toNat_add, UInt32.toNat_one, Nat.mod_eq_of_lt (by omega)]

/-- Pauses double up to the cap. No failure count makes a machine fail, and what it computes is the pause
of the policy, whether its times are counted in nanoseconds or in microseconds. There is none exactly
once there are too many failures. The first one is the base delay. After one more failure the pause is
twice as long, or as long as the cap, if at most thirty-one failures came before it or the cap was
reached; after thirty-two failures or more it stays. -/
theorem pauses_double (p : Backoff) (hdelays : p.base.nanos ≤ p.cap.nanos) :
    (∀ failures, ∃ answer, p.delay? failures = .ok answer ∧
      answer.map Pause.nanos = p.policy.delay? failures.toNat ∧
      ∀ q : RestartPolicy, p.policy = q.inUnits 1000 →
        answer.map Pause.nanos = (q.delay? failures.toNat).map (1000 * ·)) ∧
    (∀ failures, p.delay? failures = .ok none ↔ p.maxFailures ≤ failures) ∧
    (1 < p.maxFailures → p.delay? 1 = .ok (some p.base)) ∧
    ∀ failures d, 1 ≤ failures.toNat → failures.toNat + 1 < p.maxFailures.toNat →
      p.delay? failures = .ok (some d) → ∃ d', p.delay? (failures + 1) = .ok (some d') ∧
        (failures.toNat ≤ 31 ∨ d = p.cap → d'.nanos = min (2 * d.nanos) p.cap.nanos) ∧
        (32 ≤ failures.toNat → d' = d) := by
  refine ⟨fun failures => ?_, fun failures => ?_, fun hone => ?_, fun failures d hpos hlt hd => ?_⟩
  · obtain ⟨answer, hanswer, hnanos⟩ := p.delay?_eq failures
    refine ⟨answer, hanswer, hnanos, fun q hq => ?_⟩
    rw [hnanos, hq, RestartPolicy.delay?_inUnits]
  · rw [delay?_eq_ok_iff, Option.map_none, eq_comm, RestartPolicy.delay?_eq_none_iff,
      UInt32.le_iff_toNat_le]
    rfl
  · rw [delay?_eq_ok_iff]
    exact (RestartPolicy.delay?_one (p := p.policy) hdelays (UInt32.lt_iff_toNat_lt.mp hone)).symm
  · have hpolicy := (delay?_eq_ok_iff.mp hd).symm
    rcases Nat.lt_or_ge failures.toNat 32 with hdoubles | hends
    · have hnext := RestartPolicy.delay?_succ hpos (by omega) hlt hpolicy
      have hle : min (2 * d.nanos) p.cap.nanos ≤ longestNanos :=
        Nat.le_trans (Nat.min_le_right _ _) p.cap.nanos_le
      refine ⟨⟨min (2 * d.nanos) p.cap.nanos, hle⟩, ?_, fun _ => rfl, fun h => by omega⟩
      rw [delay?_eq_ok_iff, toNat_succ_of_lt hlt]
      exact hnext.symm
    · refine ⟨d, ?_, ?_, fun _ => rfl⟩
      · rw [delay?_eq_ok_iff, toNat_succ_of_lt hlt, RestartPolicy.delay?_stays hends hlt, hpolicy]
      · rintro (hfew | rfl)
        · omega
        · omega

/-- The thirty-third failure finds the pause as the thirty-second left it, far below the cap. -/
theorem pauses_stop_doubling :
    let p : Backoff := ⟨.ofNanos 1000, .ofNanos 5000000000000, 40⟩
    let d : Pause := .ofNanos 2147483648000
    p.base.nanos ≤ p.cap.nanos ∧ (32 : UInt32).toNat + 1 < p.maxFailures.toNat ∧
      p.delay? 32 = .ok (some d) ∧ p.delay? 33 = .ok (some d) ∧
      d.nanos ≠ min (2 * d.nanos) p.cap.nanos ∧
      RestartPolicy.delay? ⟨1, 5000000000, 40⟩ 32 = some 2147483648 ∧
      RestartPolicy.delay? ⟨1, 5000000000, 40⟩ 33 = some 2147483648 := by
  intro p d
  exact ⟨by decide, by decide, delay?_eq_ok_iff.mpr (by decide), delay?_eq_ok_iff.mpr (by decide),
    by decide, by decide, by decide⟩

/-- A slot of six failures and a cap of five seconds. -/
theorem pauses_double_default :
    let p : Backoff := ⟨.ofNanos 100000000, .ofNanos 5000000000, 6⟩
    p.base.nanos ≤ p.cap.nanos ∧ p.delay? 1 = .ok (some p.base) ∧ p.delay? 6 = .ok none ∧
      ∃ d', p.delay? 3 = .ok (some d') ∧ d'.nanos = min (2 * 200000000) 5000000000 := by
  intro p
  have hdelays : p.base.nanos ≤ p.cap.nanos := by decide
  obtain ⟨-, hnone, hfirst, hnext⟩ := pauses_double p hdelays
  obtain ⟨d', hd', hdouble, -⟩ := hnext 2 (.ofNanos 200000000) (by decide) (by decide)
    (delay?_eq_ok_iff.mpr (by decide))
  exact ⟨hdelays, hfirst (by decide), (hnone 6).mpr (by decide), d', hd', hdouble (.inl (by decide))⟩

end Backoff

end SqlAtlas
