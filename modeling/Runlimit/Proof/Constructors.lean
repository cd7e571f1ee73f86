import Runlimit.Proof.Prim
import Runlimit.Spec.Shards

/-!
# The constructors build exactly the checked values

Identifiers, capacities, periods, policies, checks and configurations carry in their types what
their constructors check. These lemmas say that nothing is lost by that: a constructor succeeds
exactly on the parts of a checked value, and every checked value is what its constructor builds
from its parts.

* `Capacity.new_eq_ok_iff`, `QuotaPeriod.new_eq_ok_iff`: the two bounded numbers;
* `FixedWindowPolicy.new_eq_ok_iff`, `GcraPolicy.new_eq_ok_iff`, `AttemptPolicy.new_eq_ok_iff`: the
  policies;
* `Check.withCost_eq_ok_iff`: the costs;
* `MemoryStoreConfig.built`: every configuration comes from `new` and the three `with` functions.
-/

namespace Runlimit

/-! ## Identifiers and bounded numbers -/

/-- The text of an identifier, and only that, builds it. -/
theorem Identifier.new_eq_ok_iff {value : String} {id : Identifier} :
    Identifier.new value = .ok id ↔ id.asStr = value := by
  unfold Identifier.new
  split
  · rename_i hvalid
    constructor
    · intro h
      cases h
      rfl
    · rintro rfl
      rfl
  · rename_i e hinvalid
    constructor
    · intro h
      cases h
    · rintro rfl
      rw [id.valid] at hinvalid
      cases hinvalid

/-- A capacity is built from its value. -/
theorem Capacity.new_eq_ok_iff {value : ℕ} {capacity : Capacity} :
    Capacity.new value = .ok capacity ↔ capacity.get = value := by
  unfold Capacity.new
  split
  · rename_i h0
    have hpos := capacity.pos
    constructor
    · intro h
      cases h
    · intro h
      omega
  · split
    · rename_i hlarge
      have hmax := capacity.le_max
      constructor
      · intro h
        cases h
      · intro h
        omega
    · constructor
      · intro h
        cases h
        rfl
      · rintro rfl
        rfl

/-- A period is far from the end of `u64`. -/
theorem QuotaPeriod.millis_le (period : QuotaPeriod) : period.millis ≤ u64Max :=
  period.le_max.trans (by decide)

/-- Whole milliseconds make a duration exactly. -/
theorem QuotaPeriod.duration_millis (period : QuotaPeriod) : period.duration.nanos = period.millis * 10 ^ 6 :=
  Duration.fromMillis_nanos period.millis_le

theorem maxWindow_nanos : maxWindow.nanos = maxWindowMillis * 10 ^ 6 :=
  Duration.fromMillis_nanos (by decide)

/-- The duration of a period passes the three checks, and the conversions after them. -/
theorem QuotaPeriod.new_duration (period : QuotaPeriod) : QuotaPeriod.new period.duration = .ok period := by
  have hnanos := period.duration_millis
  have hmillis : period.duration.asMillis = period.millis := Duration.asMillis_fromMillis period.millis_le
  have hpos := period.pos
  have hmax := period.le_max
  have hle : ¬maxWindow < period.duration := by
    rw [not_lt]
    change period.duration.nanos ≤ maxWindow.nanos
    rw [maxWindow_nanos]
    omega
  unfold QuotaPeriod.new
  rw [if_neg (by omega), if_neg (by omega), if_neg hle, dif_neg (by omega), dif_neg (by omega)]
  exact congrArg Except.ok (QuotaPeriod.ext hmillis)

/-- **A period is built from its duration**, and from no other. -/
theorem QuotaPeriod.new_eq_ok_iff {duration : Duration} {period : QuotaPeriod} :
    QuotaPeriod.new duration = .ok period ↔ period.duration = duration := by
  constructor
  · intro h
    unfold QuotaPeriod.new at h
    split at h
    · cases h
    · split at h
      · cases h
      · rename_i hwhole
        split at h
        · cases h
        · split at h
          · cases h
          · split at h
            · cases h
            · cases h
              -- whole milliseconds of the second are whole milliseconds
              have hwhole := not_not.1 hwhole
              refine Duration.ext ?_
              rw [QuotaPeriod.duration_millis]
              change duration.nanos / 10 ^ 6 * 10 ^ 6 = duration.nanos
              omega
  · rintro rfl
    exact period.new_duration

/-! ## Policies -/

/-- A constructor of a policy enforces: the mode is set afterwards. -/
theorem FixedWindowPolicy.new_eq_ok_iff {id : PolicyId} {scope : ScopeId} {limit : ℕ} {window : Duration}
    {policy : FixedWindowPolicy} :
    FixedWindowPolicy.new id scope limit window = .ok policy ↔
      policy.id = id ∧ policy.scope = scope ∧ policy.limit.get = limit ∧ policy.window.duration = window ∧
        policy.quotaMode = .enforce := by
  unfold FixedWindowPolicy.new
  constructor
  · intro h
    split at h
    · cases h
    · cases h
    · rename_i limit' hlimit
      split at h
      · cases h
      · cases h
      · cases h
      · rename_i window' hwindow
        cases h
        exact ⟨rfl, rfl, Capacity.new_eq_ok_iff.1 hlimit, QuotaPeriod.new_eq_ok_iff.1 hwindow, rfl⟩
  · rintro ⟨rfl, rfl, hlimit, hwindow, hmode⟩
    rw [Capacity.new_eq_ok_iff.2 hlimit, QuotaPeriod.new_eq_ok_iff.2 hwindow]
    simp only
    rw [← hmode]

/-- The refill bound is the only check of two parts. -/
theorem GcraPolicy.new_eq_ok_iff {id : PolicyId} {scope : ScopeId} {quota burstCapacity : ℕ} {period : Duration}
    {policy : GcraPolicy} :
    GcraPolicy.new id scope quota period burstCapacity = .ok policy ↔
      policy.id = id ∧ policy.scope = scope ∧ policy.quota.get = quota ∧ policy.period.duration = period ∧
        policy.burstCapacity.get = burstCapacity ∧ policy.quotaMode = .enforce := by
  unfold GcraPolicy.new
  constructor
  · intro h
    split at h
    · cases h
    · cases h
    · rename_i quota' hquota
      split at h
      · cases h
      · cases h
      · rename_i burst' hburst
        split at h
        · cases h
        · cases h
        · cases h
        · rename_i period' hperiod
          simp only at h
          split at h
          · cases h
          · cases h
            exact ⟨rfl, rfl, Capacity.new_eq_ok_iff.1 hquota, QuotaPeriod.new_eq_ok_iff.1 hperiod,
              Capacity.new_eq_ok_iff.1 hburst, rfl⟩
  · rintro ⟨rfl, rfl, hquota, hperiod, hburst, hmode⟩
    rw [Capacity.new_eq_ok_iff.2 hquota, Capacity.new_eq_ok_iff.2 hburst, QuotaPeriod.new_eq_ok_iff.2 hperiod]
    simp only
    rw [dif_neg (not_lt.2 policy.refill_le), ← hmode]

theorem AttemptPolicy.new_eq_ok_iff {id : PolicyId} {scope : ScopeId}
    {initialDelay maximumDelay quietPeriod lease : QuotaPeriod} {policy : AttemptPolicy} :
    AttemptPolicy.new id scope initialDelay maximumDelay quietPeriod lease = .ok policy ↔
      policy.id = id ∧ policy.scope = scope ∧ policy.initialDelay = initialDelay ∧
        policy.maximumDelay = maximumDelay ∧ policy.quietPeriod = quietPeriod ∧ policy.lease = lease := by
  unfold AttemptPolicy.new
  constructor
  · intro h
    split at h
    · cases h
    · split at h
      · cases h
      · cases h
        exact ⟨rfl, rfl, rfl, rfl, rfl, rfl⟩
  · rintro ⟨rfl, rfl, rfl, rfl, rfl, rfl⟩
    rw [dif_neg (not_lt.2 policy.initial_le), dif_neg (not_lt.2 policy.maximum_le)]

/-- A policy of either kind, in either mode, is its constructor's value with the mode set. -/
theorem FixedWindowPolicy.built (policy : FixedWindowPolicy) :
    ∃ enforced, FixedWindowPolicy.new policy.id policy.scope policy.limit.get policy.window.duration = .ok enforced ∧
      enforced.withQuotaMode policy.quotaMode = policy :=
  ⟨policy.withQuotaMode .enforce, FixedWindowPolicy.new_eq_ok_iff.2 ⟨rfl, rfl, rfl, rfl, rfl⟩, rfl⟩

theorem GcraPolicy.built (policy : GcraPolicy) :
    ∃ enforced, GcraPolicy.new policy.id policy.scope policy.quota.get policy.period.duration
        policy.burstCapacity.get = .ok enforced ∧
      enforced.withQuotaMode policy.quotaMode = policy :=
  ⟨policy.withQuotaMode .enforce, GcraPolicy.new_eq_ok_iff.2 ⟨rfl, rfl, rfl, rfl, rfl, rfl⟩, rfl⟩

/-! ## Checks -/

section Check

variable {P : Type} [RateLimitPolicy P]

/-- The costs that a check of this policy may have. -/
theorem Check.withCost_eq_ok_iff {check check' : Check P} {cost : ℕ} :
    check.withCost cost = .ok check' ↔
      check'.policy = check.policy ∧ check'.subject = check.subject ∧ check'.cost = cost := by
  unfold Check.withCost
  constructor
  · intro h
    split at h
    · cases h
    · split at h
      · cases h
      · cases h
        exact ⟨rfl, rfl, rfl⟩
  · obtain ⟨policy', subject', cost', hpos, hle⟩ := check'
    rintro ⟨hpolicy, hsubject, hcost⟩
    simp only at hpolicy hsubject hcost
    subst hpolicy hsubject hcost
    rw [dif_neg (Nat.pos_iff_ne_zero.1 hpos), dif_neg (not_lt.2 hle)]

/-- Every check is a check at the default cost, with its cost set. -/
theorem Check.built (check : Check P) : (Check.new check.policy check.subject).withCost check.cost = .ok check :=
  Check.withCost_eq_ok_iff.2 ⟨rfl, rfl, rfl⟩

end Check

/-! ## Configurations and hashers -/

/-- **Every configuration of a store can be built**: from its number of keys, and its other values set one
by one. -/
theorem MemoryStoreConfig.built (config : MemoryStoreConfig) :
    (MemoryStoreConfig.new config.maxKeys config.maxKeys_le >>= fun fresh =>
      fresh.withShardCount config.shardCount >>= fun sharded =>
        sharded.withMaxExpiredRemovalsPerCheck config.maxExpiredRemovalsPerCheck >>= fun limited =>
          limited.withMaxBatchSize config.maxBatchSize config.maxBatchSize_le) = .ok config := by
  have hkeys : config.maxKeys ≠ 0 := by
    have hpos := config.shardCount_pos
    have hle := config.shardCount_le
    omega
  unfold MemoryStoreConfig.new
  rw [dif_neg hkeys, except_ok_bind]
  unfold MemoryStoreConfig.withShardCount
  rw [dif_neg (Nat.pos_iff_ne_zero.1 config.shardCount_pos), dif_neg (not_lt.2 config.shardCount_le), except_ok_bind]
  unfold MemoryStoreConfig.withMaxExpiredRemovalsPerCheck
  rw [dif_neg (Nat.pos_iff_ne_zero.1 config.removals_pos), except_ok_bind]
  unfold MemoryStoreConfig.withMaxBatchSize
  rw [dif_neg (Nat.pos_iff_ne_zero.1 config.batch_pos)]

/-- A hasher is the secret, long enough, and the domain it has absorbed. -/
theorem KeyHasher.new_eq_ok_iff {secret : List UInt8} {hasher : KeyHasher} :
    KeyHasher.new secret = .ok hasher ↔ minimumSecretLength ≤ secret.length ∧ hasher.template.key = secret := by
  unfold KeyHasher.new
  constructor
  · intro h
    split at h
    · cases h
    · rename_i hlong
      cases h
      exact ⟨not_lt.1 hlong, rfl⟩
  · obtain ⟨⟨key, message⟩, habsorbed⟩ := hasher
    rintro ⟨hlong, hkey⟩
    simp only at habsorbed hkey
    subst hkey habsorbed
    rw [if_neg (not_lt.2 hlong)]
    rfl

end Runlimit
