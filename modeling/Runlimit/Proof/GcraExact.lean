import Runlimit.Spec.Reference
import Runlimit.Proof.Prim

/-!
# GCRA without the overflow checks

`Gcra.evaluate` computes `Gcra.exact` whenever it returns (`evaluate_eq_exact`), and it
returns at every time below `2 ^ 64` milliseconds (`evaluate_exact_of_lt`). `exact` is the
transition over the natural numbers: an arrival time that never falls behind the clock moves
on by the scaled cost, unless that puts it more than the burst span ahead of the clock.
-/

namespace Runlimit

namespace Gcra

variable [Sha2]

/-- The clock, scaled by the quota. -/
def scaledNow (check : Check GcraPolicy) (now : ℕ) : ℕ := now * check.policy.quota.get

/-- The burst capacity, scaled by the period. -/
def burstSpan (policy : GcraPolicy) : ℕ := policy.burstCapacity.get * policy.period.millis

/-- The arrival time the check would be charged to. -/
def candidate (check : Check GcraPolicy) (now : ℕ) (tat : Option ℕ) : ℕ :=
  max (tat.getD (scaledNow check now)) (scaledNow check now) + check.cost * check.policy.period.millis

/-- The latest arrival time the burst capacity admits. -/
def ceiling (check : Check GcraPolicy) (now : ℕ) : ℕ := scaledNow check now + burstSpan check.policy

/-- What is left of the burst span, in whole units. -/
def availableUnits (check : Check GcraPolicy) (now : ℕ) (tat : Option ℕ) : ℕ :=
  (ceiling check now - candidate check now tat) / check.policy.period.millis

/-- The milliseconds until the arrival time is reached. -/
def replenishMillis (check : Check GcraPolicy) (now : ℕ) (tat : Option ℕ) : ℕ :=
  divCeil (candidate check now tat - scaledNow check now) check.policy.quota.get

/-- The milliseconds until the check conforms. -/
def retryMillis (check : Check GcraPolicy) (now : ℕ) (tat : Option ℕ) : ℕ :=
  divCeil (candidate check now tat - ceiling check now) check.policy.quota.get

/-- The candidate is not in the past. -/
theorem scaledNow_le_candidate (check : Check GcraPolicy) (now : ℕ) (tat : Option ℕ) :
    scaledNow check now ≤ candidate check now tat :=
  le_trans (le_max_right _ _) (Nat.le_add_right _ _)

/-- No more is available than the burst. -/
theorem availableUnits_le (check : Check GcraPolicy) (now : ℕ) (tat : Option ℕ) :
    availableUnits check now tat ≤ check.policy.burstCapacity.get := by
  have hle : ceiling check now - candidate check now tat ≤
      check.policy.burstCapacity.get * check.policy.period.millis := by
    have := scaledNow_le_candidate check now tat
    unfold ceiling burstSpan
    omega
  exact (Nat.div_le_div_right hle).trans
    (Nat.mul_div_cancel _ check.policy.period.pos).le

/-- The transition over the natural numbers. -/
def exact (check : Check GcraPolicy) (now : ℕ) (tat : Option ℕ) : QuotaEvaluation :=
  if ceiling check now < candidate check now tat then
    .denied (QuotaDenial.new check.policy.burstCapacity
      (Duration.fromMillis (retryMillis check now tat)))
  else
    .allowed ⟨candidate check now tat, now + replenishMillis check now tat,
      ⟨check.policy.burstCapacity, availableUnits check now tat,
        ⟨Duration.fromMillis (replenishMillis check now tat)⟩, availableUnits_le check now tat⟩⟩

/-! ## Partial correctness -/

omit [Sha2] in
/-- A checked operation succeeds with its value. -/
theorem orOverflow_eq_ok {α : Type} {x : Option α} {a : α} : orOverflow x = .ok a ↔ x = some a := by
  cases x with
  | none => simp [orOverflow]
  | some b => simp [orOverflow]

omit [Sha2] in
/-- A `u128` product is exact where it fits. -/
theorem checkedMul_eq_some {a b c : ℕ} : checkedMul a b = some c ↔ a * b ≤ u128Max ∧ a * b = c := by
  unfold checkedMul
  split
  · rename_i h; simp [h]
  · rename_i h; simp [h]

omit [Sha2] in
/-- A `u128` sum is exact where it fits. -/
theorem checkedAdd_eq_some {a b c : ℕ} : checkedAdd a b = some c ↔ a + b ≤ u128Max ∧ a + b = c := by
  unfold checkedAdd
  split
  · rename_i h; simp [h]
  · rename_i h; simp [h]

omit [Sha2] in
theorem toU64_eq_ok {a b : ℕ} : toU64 a = .ok b ↔ a ≤ u64Max ∧ a = b := by
  unfold toU64
  split
  · rename_i h; simp [h]
  · rename_i h; simp [h]

omit [Sha2] in
/-- A delay is exact where its milliseconds fit a `u64`. -/
theorem duration_eq_ok {millis : ℕ} {d : Duration} :
    duration millis = .ok d ↔ millis ≤ u64Max ∧ d = Duration.fromMillis millis := by
  unfold duration
  rw [except_bind_eq_ok]
  constructor
  · rintro ⟨m, hm, hd⟩
    obtain ⟨hle, rfl⟩ := toU64_eq_ok.1 hm
    exact ⟨hle, (Except.ok.inj hd).symm⟩
  · rintro ⟨hle, rfl⟩
    exact ⟨millis, toU64_eq_ok.2 ⟨hle, rfl⟩, rfl⟩

omit [Sha2] in
theorem allowanceNew_eq_ok {capacity : Capacity} {available : ℕ} {after : Duration} {a : Allowance} :
    Allowance.new capacity available after = .ok a ↔
      a.capacity = capacity ∧ a.available = available ∧ a.replenishesAfter = ⟨after⟩ := by
  unfold Allowance.new
  split
  · rename_i h
    constructor
    · intro h'; cases h'
    · rintro ⟨rfl, rfl, -⟩
      exact absurd a.available_le (Nat.not_le.2 h)
  · constructor
    · intro h'; cases h'; exact ⟨rfl, rfl, rfl⟩
    · rintro ⟨rfl, rfl, h⟩
      cases a
      simp_all

/-- **Whenever `evaluate` returns, it returns the exact transition.** -/
theorem evaluate_eq_exact {check : Check GcraPolicy} {now : ℕ} {tat : Option ℕ} {v : QuotaEvaluation}
    (h : evaluate check now tat = .ok v) : v = exact check now tat := by
  unfold evaluate at h
  simp only [except_bind_eq_ok, orOverflow_eq_ok] at h
  obtain ⟨scaled, hscaled, inc, hinc, cand, hcand, span, hspan, ceil, hceil, h⟩ := h
  obtain ⟨-, rfl⟩ := checkedMul_eq_some.1 hscaled
  obtain ⟨-, rfl⟩ := checkedMul_eq_some.1 hinc
  obtain ⟨-, rfl⟩ := checkedAdd_eq_some.1 hcand
  obtain ⟨-, rfl⟩ := checkedMul_eq_some.1 hspan
  obtain ⟨-, rfl⟩ := checkedAdd_eq_some.1 hceil
  -- each checked step was exact
  unfold exact
  split at h
  · rename_i hlt
    rw [if_pos (by exact hlt)]
    obtain ⟨d, hd, hv⟩ := except_bind_eq_ok.1 h
    obtain ⟨-, rfl⟩ := duration_eq_ok.1 hd
    exact (Except.ok.inj hv).symm
  · rename_i hlt
    rw [if_neg (by exact hlt)]
    simp only [except_bind_eq_ok, orOverflow_eq_ok] at h
    obtain ⟨avail, havail, expires, hexpires, d, hd, h⟩ := h
    obtain ⟨-, rfl⟩ := toU64_eq_ok.1 havail
    obtain ⟨-, rfl⟩ := checkedAdd_eq_some.1 hexpires
    obtain ⟨-, rfl⟩ := duration_eq_ok.1 hd
    split at h
    · rename_i a hnew
      obtain ⟨hc, hav, hr⟩ := allowanceNew_eq_ok.1 hnew
      cases h
      cases a
      simp only at hc hav hr
      subst hc hav hr
      rfl
    · cases h

/-- An arrival time that is stored fits `u128`. -/
theorem candidate_le {check : Check GcraPolicy} {now : ℕ} {tat : Option ℕ} {v : QuotaEvaluation}
    (h : evaluate check now tat = .ok v) : candidate check now tat ≤ u128Max := by
  unfold evaluate at h
  simp only [except_bind_eq_ok, orOverflow_eq_ok] at h
  obtain ⟨scaled, hscaled, inc, hinc, cand, hcand, -⟩ := h
  obtain ⟨-, rfl⟩ := checkedMul_eq_some.1 hscaled
  obtain ⟨-, rfl⟩ := checkedMul_eq_some.1 hinc
  exact (checkedAdd_eq_some.1 hcand).1

/-! ## Bounds and the supported time range -/

theorem quota_pos (check : Check GcraPolicy) : 0 < check.policy.quota.get := check.policy.quota.pos

/-- A check costs something. -/
theorem scaledNow_lt_candidate (check : Check GcraPolicy) (now : ℕ) (tat : Option ℕ) :
    scaledNow check now < candidate check now tat := by
  have hpos : 0 < check.cost * check.policy.period.millis :=
    Nat.mul_pos check.cost_pos check.policy.period.pos
  have := le_max_right (tat.getD (scaledNow check now)) (scaledNow check now)
  unfold candidate
  omega

/-- An allowed check has to wait for its units to come back. -/
theorem replenishMillis_pos (check : Check GcraPolicy) (now : ℕ) (tat : Option ℕ) :
    0 < replenishMillis check now tat := by
  unfold replenishMillis
  rw [lt_divCeil_iff (quota_pos check), Nat.zero_mul]
  exact Nat.sub_pos_of_lt (scaledNow_lt_candidate check now tat)

omit [Sha2] in
/-- A full refill takes no longer than the portable window. -/
theorem divCeil_le_window (policy : GcraPolicy) {span : ℕ} (h : span ≤ burstSpan policy) :
    divCeil span policy.quota.get ≤ maxWindowMillis :=
  (divCeil_mono policy.quota.pos h).trans policy.refill_le

/-- The bucket is full again within the longest window. -/
theorem replenishMillis_le {check : Check GcraPolicy} {now : ℕ} {tat : Option ℕ}
    (h : candidate check now tat ≤ ceiling check now) :
    replenishMillis check now tat ≤ maxWindowMillis := by
  apply divCeil_le_window
  unfold ceiling at h
  omega

/-- The burst span is within the portable window of the clock. -/
theorem ceiling_le (check : Check GcraPolicy) (now : ℕ) :
    ceiling check now ≤ (now + maxWindowMillis) * check.policy.quota.get := by
  have hspan : burstSpan check.policy ≤ maxWindowMillis * check.policy.quota.get :=
    (divCeil_le_iff check.policy.quota.pos).1 check.policy.refill_le
  unfold ceiling scaledNow
  rw [Nat.add_mul]
  omega

/-- An arrival time within the portable window of the clock. -/
theorem activeTat_le {check : Check GcraPolicy} {now : ℕ} {tat : Option ℕ}
    (htat : ∀ t ∈ tat, t ≤ (now + maxWindowMillis) * check.policy.quota.get) :
    max (tat.getD (scaledNow check now)) (scaledNow check now) ≤
      scaledNow check now + maxWindowMillis * check.policy.quota.get := by
  refine max_le ?_ (Nat.le_add_right _ _)
  cases tat with
  | none => exact Nat.le_add_right _ _
  | some t =>
    have hle := htat t rfl
    rw [Nat.add_mul] at hle
    exact hle

/-- A denied check may retry within the longest window. -/
theorem retryMillis_le {check : Check GcraPolicy} {now : ℕ} {tat : Option ℕ}
    (htat : ∀ t ∈ tat, t ≤ (now + maxWindowMillis) * check.policy.quota.get) :
    retryMillis check now tat ≤ maxWindowMillis := by
  unfold retryMillis
  rw [divCeil_le_iff (quota_pos check)]
  have hcost : check.cost * check.policy.period.millis ≤ burstSpan check.policy :=
    Nat.mul_le_mul_right _ check.cost_le
  have hactive := activeTat_le htat
  unfold candidate ceiling
  omega

/-- The time has room in a `u128`. -/
theorem scaledNow_lt (check : Check GcraPolicy) {now : ℕ} (hnow : now < 2 ^ 64) :
    scaledNow check now < 2 ^ 127 := by
  have hq := check.policy.quota.le_max
  unfold maxLimit at hq
  calc scaledNow check now = now * check.policy.quota.get := rfl
    _ ≤ (2 ^ 64 - 1) * (2 ^ 63 - 1) := Nat.mul_le_mul (by omega) hq
    _ < 2 ^ 127 := by norm_num

omit [Sha2] in
/-- So has a burst beside it. -/
theorem burstSpan_lt (policy : GcraPolicy) : burstSpan policy < 2 ^ 107 := by
  have hb := policy.burstCapacity.le_max
  have hp := policy.period.le_max
  unfold maxLimit at hb
  calc burstSpan policy ≤ (2 ^ 63 - 1) * (2 ^ 53 / 1000) := Nat.mul_le_mul hb hp
    _ < 2 ^ 107 := by norm_num

omit [Sha2] in
theorem windowSpan_lt (policy : GcraPolicy) : maxWindowMillis * policy.quota.get < 2 ^ 107 := by
  have hq := policy.quota.le_max
  unfold maxLimit at hq
  calc maxWindowMillis * policy.quota.get ≤ (2 ^ 53 / 1000) * (2 ^ 63 - 1) := Nat.mul_le_mul le_rfl hq
    _ < 2 ^ 107 := by norm_num

/-- **`evaluate` never overflows below `2 ^ 64` milliseconds**, from any arrival time that is
within the portable window of the clock. -/
theorem evaluate_exact_of_lt {check : Check GcraPolicy} {now : ℕ} {tat : Option ℕ}
    (hnow : now < 2 ^ 64) (htat : ∀ t ∈ tat, t ≤ (now + maxWindowMillis) * check.policy.quota.get) :
    evaluate check now tat = .ok (exact check now tat) := by
  have hscaled := scaledNow_lt check hnow
  have hspan := burstSpan_lt check.policy
  have hwindowSpan := windowSpan_lt check.policy
  have hcost : check.cost * check.policy.period.millis ≤ burstSpan check.policy :=
    Nat.mul_le_mul_right _ check.cost_le
  have hactive := activeTat_le htat
  -- the sums stay below 2 ^ 128
  have hceil : ceiling check now < 2 ^ 127 + 2 ^ 107 := by unfold ceiling; omega
  have hcand : candidate check now tat < 2 ^ 127 + 2 ^ 107 + 2 ^ 107 := by unfold candidate; omega
  have e1 : checkedMul now check.policy.quota.get = some (scaledNow check now) :=
    checkedMul_eq_some.2 ⟨by unfold scaledNow at hscaled; unfold u128Max; omega, rfl⟩
  have e2 : checkedMul check.cost check.policy.period.millis =
      some (check.cost * check.policy.period.millis) :=
    checkedMul_eq_some.2 ⟨by unfold u128Max; omega, rfl⟩
  have e3 : checkedAdd (max (tat.getD (scaledNow check now)) (scaledNow check now))
      (check.cost * check.policy.period.millis) = some (candidate check now tat) :=
    checkedAdd_eq_some.2 ⟨by unfold candidate at hcand; unfold u128Max; omega, rfl⟩
  have e4 : checkedMul check.policy.burstCapacity.get check.policy.period.millis =
      some (burstSpan check.policy) :=
    checkedMul_eq_some.2 ⟨by unfold burstSpan at hspan; unfold u128Max; omega, rfl⟩
  have e5 : checkedAdd (scaledNow check now) (burstSpan check.policy) = some (ceiling check now) :=
    checkedAdd_eq_some.2 ⟨by unfold ceiling at hceil; unfold u128Max; omega, rfl⟩
  unfold evaluate exact
  simp only [e1, e2, e3, e4, e5, orOverflow, except_ok_bind]
  have hwindow : maxWindowMillis ≤ u64Max := by decide
  split
  · -- denied: the retry time fits
    have hretry := (retryMillis_le htat).trans hwindow
    have hdur := duration_eq_ok.2 ⟨hretry, rfl⟩
    unfold retryMillis at hdur
    simp only [hdur, except_ok_bind]
    rfl
  · rename_i hle
    -- allowed: the replenishment and the expiry fit
    have hrep := replenishMillis_le (Nat.not_lt.1 hle)
    have havail : availableUnits check now tat ≤ u64Max := by
      have hle := availableUnits_le check now tat
      have hb := check.policy.burstCapacity.le_max
      unfold maxLimit at hb
      unfold u64Max
      omega
    have hexp : checkedAdd now (replenishMillis check now tat) =
        some (now + replenishMillis check now tat) := by
      refine checkedAdd_eq_some.2 ⟨?_, rfl⟩
      unfold maxWindowMillis at hrep
      unfold u128Max
      omega
    have hnew : Allowance.new check.policy.burstCapacity (availableUnits check now tat)
        (Duration.fromMillis (replenishMillis check now tat)) =
        .ok ⟨check.policy.burstCapacity, availableUnits check now tat,
          ⟨Duration.fromMillis (replenishMillis check now tat)⟩, availableUnits_le check now tat⟩ :=
      allowanceNew_eq_ok.2 ⟨rfl, rfl, rfl⟩
    have e6 := toU64_eq_ok.2 ⟨havail, rfl⟩
    have e7 := duration_eq_ok.2 ⟨hrep.trans hwindow, rfl⟩
    unfold availableUnits at e6 hnew
    unfold replenishMillis at e7 hexp hnew
    simp only [e6, e7, hexp, except_ok_bind, hnew]
    rfl

/-! ## Allowed transitions -/

/-- What an allowed check stores. -/
theorem exact_allowed {check : Check GcraPolicy} {now : ℕ} {tat : Option ℕ} {p : PendingAllowance}
    (h : exact check now tat = .allowed p) :
    candidate check now tat ≤ ceiling check now ∧ p.tatScaled = candidate check now tat ∧
      p.expiresAtMillis = now + replenishMillis check now tat := by
  unfold exact at h
  split at h
  · cases h
  · rename_i hle
    cases h
    exact ⟨Nat.not_lt.1 hle, rfl, rfl⟩

end Gcra

/-- The exact GCRA transition as a quota algorithm: an arrival time is live until the clock
reaches it, at most a full refill later. -/
def gcra [Sha2] : Algorithm GcraPolicy GcraEntry where
  evaluate := gcraEvaluate
  expires_bound := by
    intro check now live entry allowance h _
    unfold gcraEvaluate at h
    cases hev : Gcra.evaluate check now (live.map (·.value.tatScaled)) with
    | error e => rw [hev] at h; cases h
    | ok v =>
      rw [hev, except_map_ok, Except.ok.injEq] at h
      cases v with
      | denied d => cases h
      | allowed p =>
        cases h
        obtain ⟨hle, -, hexp⟩ := Gcra.exact_allowed (Gcra.evaluate_eq_exact hev).symm
        have hpos := Gcra.replenishMillis_pos check now (live.map (·.value.tatScaled))
        have hmax := Gcra.replenishMillis_le hle
        simp only [hexp]
        omega

end Runlimit
