import Runlimit.Proof.EagerRefines
import Runlimit.Spec.PgAttempts

/-!
# The backoff of the database is the backoff of the policy

`AttemptPolicy::delay` is given the count after a failure, shifts a `u64` and saturates;
`attempt_complete.sql` is given the count before it and multiplies exactly, by a power of two whose
exponent stops at 63. Both are the doubling delay, because every delay of a policy is below the
point where either of them departs from it:

* `delayMs_eq`: the exponent that stops at 63 is past the maximum delay by then;
* `completeRow_failure`: what a failure stores and returns;
* `sql_backoff_agrees`: the two implementations agree, and with the closed form.
-/

namespace Runlimit

namespace AttemptPolicy

variable (policy : AttemptPolicy)

/-- More failures are no shorter delays. -/
theorem delayNanos_mono {j k : ℕ} (h : j ≤ k) : policy.delayNanos j ≤ policy.delayNanos k := by
  unfold delayNanos
  by_cases hj : j = 0
  · rw [if_pos hj]
    exact Nat.zero_le _
  · rw [if_neg hj, if_neg (by omega)]
    -- doubling never shrinks, and the cap is the same
    have hpow : 2 ^ (j - 1) ≤ 2 ^ (k - 1) := Nat.pow_le_pow_right (by norm_num) (by omega)
    exact min_le_min_right _ (Nat.mul_le_mul_left _ hpow)

end AttemptPolicy

namespace PgAttempts

variable (policy : AttemptPolicy)

/-- The delay `COMPLETE_SQL` computes for a failure of this policy. -/
def failureDelayMs (failures : ℕ) : ℕ :=
  delayMs false policy.initialDelay.millis policy.maximumDelay.millis failures

/-- The database caps the delay. -/
theorem failureDelayMs_le (failures : ℕ) : failureDelayMs policy failures ≤ policy.maximumDelay.millis :=
  min_le_left _ _

/-- **The delay of the database, for the count before the failure, is the doubling delay for the count
after it.** -/
theorem delayMs_eq (failures : ℕ) :
    failureDelayMs policy failures * 10 ^ 6 = policy.delayNanos (failures + 1) := by
  have hpos := policy.initialDelay.pos
  have hmax := policy.maximumDelay.le_max
  have hwindow : maxWindowMillis ≤ 2 ^ 63 := by decide
  have hcap : min policy.maximumDelay.millis (policy.initialDelay.millis * 2 ^ min failures 63) =
      min (policy.initialDelay.millis * 2 ^ failures) policy.maximumDelay.millis := by
    by_cases h : failures ≤ 63
    · rw [Nat.min_eq_left h, min_comm]
    · -- both products are past the maximum delay
      have hsmall : 2 ^ 63 ≤ policy.initialDelay.millis * 2 ^ 63 := Nat.le_mul_of_pos_left _ hpos
      have hpow : 2 ^ 63 ≤ 2 ^ failures := Nat.pow_le_pow_right (by norm_num) (by omega)
      have hlarge : 2 ^ failures ≤ policy.initialDelay.millis * 2 ^ failures := Nat.le_mul_of_pos_left _ hpos
      rw [Nat.min_eq_right (by omega : 63 ≤ failures), Nat.min_eq_left (by omega), Nat.min_eq_right (by omega)]
  unfold failureDelayMs delayMs AttemptPolicy.delayNanos QuotaPeriod.nanos
  rw [if_neg (by decide), if_neg (by omega), hcap, Nat.add_sub_cancel, Nat.mul_right_comm]
  exact (Nat.mul_min_mul_right _ _ _).symm

/-- The same, with the saturated count that is stored. -/
theorem failureDelayMs_delay (failures : ℕ) :
    (policy.delay (nextFailures false failures)).nanos = failureDelayMs policy failures * 10 ^ 6 := by
  have hnext : nextFailures false failures = min (failures + 1) u32Max := by
    unfold nextFailures
    rw [if_neg (by decide)]
    rfl
  rw [hnext, policy.delay_eq, policy.delayNanos_min, delayMs_eq]

/-- The delay the caller is told is the policy's for the new count. -/
theorem delayOf_failureDelayMs (failures : ℕ) :
    (delayOf (failureDelayMs policy failures)).duration = policy.delay (nextFailures false failures) := by
  have hle := failureDelayMs_le policy failures
  have hmax := policy.maximumDelay.le_max
  have hnanos : maxWindowMillis * 10 ^ 6 ≤ maxNanos := by decide
  have hexact : failureDelayMs policy failures * 10 ^ 6 ≤ maxNanos :=
    (Nat.mul_le_mul_right _ (hle.trans hmax)).trans hnanos
  apply Duration.ext
  rw [failureDelayMs_delay]
  unfold delayOf Duration.fromMillis
  exact Nat.min_eq_left hexact

/-- A time far enough below the last one, plus a delay, is in range. -/
theorem add_failureDelayMs_le {nowMs : ℕ} (h : nowMs < 2 ^ 62) (failures : ℕ) :
    nowMs + failureDelayMs policy failures ≤ i64Max := by
  have hle := failureDelayMs_le policy failures
  have hmax := policy.maximumDelay.le_max
  have hwindow : maxWindowMillis < 2 ^ 62 := by decide
  have hi64 : i64Max = 2 ^ 62 + 2 ^ 62 - 1 := by decide
  omega

/-- The range checks of the columns. -/
theorem storable_iff {row : AttemptRow} : row.storable = true ↔
    row.capacitySlot ≤ 65535 ∧ row.failures ≤ 4294967295 ∧ row.lastFailureMs ≤ i64Max ∧
      row.retryAtMs ≤ i64Max ∧ 1 ≤ row.quietMs ∧ row.quietMs ≤ 9007199254740 ∧ row.expiryMs ≤ i64Max := by
  unfold AttemptRow.storable
  simp only [Bool.and_eq_true, decide_eq_true_eq]
  tauto

/-- The condition of a completion, on the lease. -/
theorem completes_iff {row : AttemptRow} {token : LeaseToken} {fence : Option ℕ} {transactionId nowMs : ℕ} :
    completes row token fence transactionId nowMs = true ↔ ∃ untilMs, row.lease = some (untilMs, token) ∧
      (fence = none ∧ nowMs < untilMs ∨ fence = some transactionId) := by
  unfold completes
  cases hlease : row.lease with
  | none => simp
  | some lease =>
    obtain ⟨untilMs, leaseToken⟩ := lease
    simp only [Option.some.injEq, Prod.mk.injEq, Bool.and_eq_true, decide_eq_true_eq]
    cases fence with
    | none =>
      constructor
      · rintro ⟨rfl, hlive⟩
        exact ⟨untilMs, ⟨rfl, rfl⟩, Or.inl ⟨rfl, of_decide_eq_true hlive⟩⟩
      · rintro ⟨_, ⟨rfl, rfl⟩, ⟨-, hlive⟩ | hfence⟩
        · exact ⟨rfl, decide_eq_true hlive⟩
        · cases hfence
    | some claimed =>
      constructor
      · rintro ⟨rfl, hfence⟩
        exact ⟨untilMs, ⟨rfl, rfl⟩, Or.inr (congrArg some (of_decide_eq_true hfence))⟩
      · rintro ⟨_, ⟨rfl, rfl⟩, ⟨hnone, -⟩ | hfence⟩
        · cases hnone
        · exact ⟨rfl, decide_eq_true (Option.some.inj hfence)⟩

/-- A completed row can be stored, if its time is far enough below the last one. -/
theorem completedRow_storable {row : AttemptRow} (hrow : row.storable = true) {nowMs : ℕ} (hnow : nowMs < 2 ^ 62)
    (success : Bool) : (completedRow policy success nowMs row).storable = true := by
  obtain ⟨hslot, -, -, -, hquiet, hquiet', -⟩ := storable_iff.1 hrow
  have hretry := add_failureDelayMs_le policy hnow row.failures
  have hi64 : i64Max = 2 ^ 62 + 2 ^ 62 - 1 := by decide
  refine storable_iff.2 ⟨hslot, ?_, ?_, ?_, hquiet, hquiet', ?_⟩
  · change nextFailures success row.failures ≤ 4294967295
    unfold nextFailures
    split
    · exact Nat.zero_le _
    · exact min_le_right _ _
  · change nowMs ≤ i64Max
    omega
  · change nowMs + delayMs success _ _ _ ≤ i64Max
    -- a success sets no delay, a failure one within the last window
    cases success with
    | true =>
      change nowMs + 0 ≤ i64Max
      omega
    | false => exact hretry
  · change nowMs + row.quietMs ≤ i64Max
    omega

/-- What a failure stores and returns. -/
theorem completeRow_failure {row : AttemptRow} (hrow : row.storable = true) {nowMs : ℕ} (hnow : nowMs < 2 ^ 62)
    {token : LeaseToken} {fence : Option ℕ} {transactionId : ℕ}
    (h : completes row token fence transactionId nowMs = true) :
    completeRow policy token false fence transactionId nowMs row =
      .ok (some (completedRow policy false nowMs row,
        ⟨nextFailures false row.failures, failureDelayMs policy row.failures⟩)) := by
  unfold completeRow
  simp only
  rw [if_pos h, if_pos (completedRow_storable policy hrow hnow false)]
  rfl

/-- **A completion that is let through is applied**: the row can be stored, and its columns are consistent with the
outcome. -/
theorem completeRow_applied {row : AttemptRow} (hrow : row.storable = true) {nowMs : ℕ} (hnow : nowMs < 2 ^ 62)
    {token : LeaseToken} {fence : Option ℕ} {transactionId : ℕ}
    (h : completes row token fence transactionId nowMs = true) (outcome : AttemptOutcome) :
    ∃ columns completion, completeRow policy token (decide (outcome = .success)) fence transactionId nowMs row =
        .ok (some (completedRow policy (decide (outcome = .success)) nowMs row, columns)) ∧
      completionResult outcome (some columns) = .ok (.applied completion) ∧ completion.outcome = outcome ∧
      completion.consecutiveFailures = nextFailures (decide (outcome = .success)) row.failures ∧
      completion.retryAfter = delayOf (delayMs (decide (outcome = .success)) policy.initialDelay.millis
        policy.maximumDelay.millis row.failures) := by
  have hcompleted : completeRow policy token (decide (outcome = .success)) fence transactionId nowMs row =
      .ok (some (completedRow policy (decide (outcome = .success)) nowMs row,
        ⟨nextFailures (decide (outcome = .success)) row.failures, delayMs (decide (outcome = .success))
          policy.initialDelay.millis policy.maximumDelay.millis row.failures⟩)) := by
    unfold completeRow
    simp only
    rw [if_pos h, if_pos (completedRow_storable policy hrow hnow _)]
    rfl
  -- the count that comes back fits the `u32` of the completion
  have hle : ¬u32Max < nextFailures (decide (outcome = .success)) row.failures := by
    have hu32 : u32Max = 4294967295 := by decide
    have hnext : nextFailures (decide (outcome = .success)) row.failures ≤ 4294967295 := by
      unfold nextFailures
      split
      · exact Nat.zero_le _
      · exact min_le_right _ _
    omega
  -- after a failure neither the count nor the delay is zero
  have hfailed : 0 < nextFailures false row.failures ∧ (delayOf (failureDelayMs policy row.failures)).duration.nanos ≠ 0 := by
    have hpos : nextFailures false row.failures ≠ 0 := by
      unfold nextFailures
      rw [if_neg (by decide)]
      omega
    refine ⟨Nat.pos_of_ne_zero hpos, ?_⟩
    rw [delayOf_failureDelayMs, policy.delay_eq]
    exact (policy.delayNanos_pos hpos).ne'
  -- these are what `AttemptCompletion::new` requires of each outcome
  have hconsistent : outcome.consistent (nextFailures (decide (outcome = .success)) row.failures)
      (delayOf (delayMs (decide (outcome = .success)) policy.initialDelay.millis policy.maximumDelay.millis
        row.failures)) = true := by
    have hdelayed : (!decide ((delayOf (failureDelayMs policy row.failures)).duration.nanos = 0)) = true := by
      rw [decide_eq_false hfailed.2]
      rfl
    cases outcome with
    | success => simp [AttemptOutcome.consistent, nextFailures, delayMs, delayOf, Duration.fromMillis]
    | failure => exact Bool.and_eq_true_iff.2 ⟨decide_eq_true hfailed.1, hdelayed⟩
    | abandoned => exact Bool.and_eq_true_iff.2 ⟨decide_eq_true hfailed.1, hdelayed⟩
  refine ⟨_, ⟨outcome, _, _, hconsistent⟩, hcompleted, ?_, rfl, rfl, rfl⟩
  unfold completionResult
  simp only
  rw [if_neg hle]
  unfold AttemptCompletion.new
  rw [dif_pos hconsistent]

end PgAttempts

open PgAttempts in
/-- **Rust and SQL agree on the backoff, and both are the closed form.** The delay is zero for no
failures, else the initial delay doubled for each further one, up to the maximum; it never goes down
and is not zero after a failure. A failure of a stored row moves its count to the saturated successor
and its retry time by the delay of that successor, which is in range. -/
theorem sql_backoff_agrees (policy : AttemptPolicy) :
    (policy.delay 0).nanos = 0 ∧
    (∀ k, k ≠ 0 → k ≤ u32Max → (policy.delay k).nanos =
      min (policy.initialDelay.nanos * 2 ^ (k - 1)) policy.maximumDelay.nanos) ∧
    (∀ j k, j ≤ k → k ≤ u32Max → policy.delay j ≤ policy.delay k) ∧
    (∀ k, 1 ≤ k → k ≤ u32Max → (policy.delay k).nanos ≠ 0) ∧
    (∀ failures, failures ≤ 4294967295 →
      nextFailures false failures = min (failures + 1) u32Max ∧
      (policy.delay (min (failures + 1) u32Max)).nanos = delayMs false policy.initialDelay.millis
        policy.maximumDelay.millis failures * 10 ^ 6 ∧
      ∀ nowMs : ℤ, -2 ^ 63 ≤ nowMs → nowMs < 2 ^ 62 →
        -2 ^ 63 ≤ nowMs + delayMs false policy.initialDelay.millis policy.maximumDelay.millis failures ∧
        nowMs + delayMs false policy.initialDelay.millis policy.maximumDelay.millis failures < 2 ^ 63) ∧
    (∀ row : AttemptRow, row.storable = true → ∀ nowMs < 2 ^ 62, ∀ token fence transactionId,
      completes row token fence transactionId nowMs = true →
      ∃ completed, completeRow policy token false fence transactionId nowMs row =
          .ok (some (completed, ⟨min (row.failures + 1) u32Max, (policy.delay (min (row.failures + 1) u32Max)).asMillis⟩)) ∧
        completed.failures = min (row.failures + 1) u32Max ∧
        completed.retryAtMs = nowMs + (policy.delay (min (row.failures + 1) u32Max)).asMillis) := by
  refine ⟨rfl, ?_, ?_, ?_, ?_, ?_⟩
  · intro k hk _
    rw [policy.delay_eq]
    unfold AttemptPolicy.delayNanos
    rw [if_neg hk]
  · intro j k hjk _
    change (policy.delay j).nanos ≤ (policy.delay k).nanos
    rw [policy.delay_eq, policy.delay_eq]
    exact policy.delayNanos_mono hjk
  · intro k hk _
    rw [policy.delay_eq]
    exact (policy.delayNanos_pos (by omega)).ne'
  · intro failures _
    refine ⟨rfl, failureDelayMs_delay policy failures, ?_⟩
    intro nowMs hlow hhigh
    have hle := (failureDelayMs_le policy failures).trans policy.maximumDelay.le_max
    have hwindow : maxWindowMillis < 2 ^ 62 := by decide
    unfold failureDelayMs at hle
    omega
  · intro row hrow nowMs hnow token fence transactionId hcompletes
    have hmillis : (policy.delay (min (row.failures + 1) u32Max)).asMillis = failureDelayMs policy row.failures := by
      have hdelay : (policy.delay (min (row.failures + 1) u32Max)).nanos = failureDelayMs policy row.failures * 10 ^ 6 :=
        failureDelayMs_delay policy row.failures
      unfold Duration.asMillis
      rw [hdelay]
      exact Nat.mul_div_cancel _ (by norm_num)
    rw [hmillis]
    exact ⟨_, completeRow_failure policy hrow hnow hcompletes, rfl, rfl⟩

end Runlimit
