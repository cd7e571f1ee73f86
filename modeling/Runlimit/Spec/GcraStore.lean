import Runlimit.Spec.Shards

/-!
# Exact GCRA arithmetic and the GCRA memory store

`Gcra.evaluate` is the storage-independent transition of `runlimit-core`: time and
arrival times are scaled by the quota, so no rounding enters the stored state, and every
product and sum is checked in `u128`. `GcraStore` keeps one theoretical arrival time for
each key in the same bounded shards as the fixed-window store; unlike that store it
evaluates every check before it records the time or removes anything.
-/

namespace Runlimit

/-! ## `runlimit_core::gcra` -/

namespace Gcra

structure ArithmeticOverflow where
  deriving DecidableEq, Repr

/-- An evaluated but not yet persisted transition. -/
structure PendingAllowance where
  /-- The new theoretical arrival time, scaled by the policy quota. -/
  tatScaled : ℕ
  /-- When the counter becomes unnecessary. -/
  expiresAtMillis : ℕ
  allowance : Allowance
  deriving DecidableEq

/-- `gcra::Evaluation`. -/
inductive QuotaEvaluation where
  | allowed (allowance : PendingAllowance)
  | denied (denial : QuotaDenial)
  deriving DecidableEq

/-- `value.ok_or(ArithmeticOverflow)`. -/
def orOverflow {α : Type} : Option α → Except ArithmeticOverflow α
  | some a => .ok a
  | none => .error ⟨⟩

/-- `u64::try_from(value).map_err(|_| ArithmeticOverflow)`. -/
def toU64 (value : ℕ) : Except ArithmeticOverflow ℕ :=
  if value ≤ u64Max then .ok value else .error ⟨⟩

def duration (millis : ℕ) : Except ArithmeticOverflow Duration := do
  return Duration.fromMillis (← toU64 millis)

/-- `gcra::evaluate`. -/
def evaluate [Sha2] (check : Check GcraPolicy) (nowMillis : ℕ) (tatScaled : Option ℕ) :
    Except ArithmeticOverflow QuotaEvaluation := do
  let quota := check.policy.quota.get
  let period := check.policy.period.millis
  let capacity := check.policy.burstCapacity
  let scaledNow ← orOverflow (checkedMul nowMillis quota)
  let activeTat := max (tatScaled.getD scaledNow) scaledNow
  let increment ← orOverflow (checkedMul check.cost period)
  let candidate ← orOverflow (checkedAdd activeTat increment)
  let burstSpan ← orOverflow (checkedMul capacity.get period)
  let ceiling ← orOverflow (checkedAdd scaledNow burstSpan)
  if ceiling < candidate then
    let retry := divCeil (candidate - ceiling) quota
    return .denied (QuotaDenial.new capacity (← duration retry))
  else
    let available ← toU64 ((ceiling - candidate) / period)
    let replenish := divCeil (candidate - scaledNow) quota
    let expiresAtMillis ← orOverflow (checkedAdd nowMillis replenish)
    let allowance ← match Allowance.new capacity available (← duration replenish) with
      | .ok allowance => pure allowance
      | .error _ => .error ⟨⟩
    return .allowed ⟨candidate, expiresAtMillis, allowance⟩

end Gcra

open Gcra

/-! ## `GcraStore` -/

/-- `gcra::Entry`. -/
structure GcraEntry where
  tatScaled : ℕ
  deriving DecidableEq, Repr

inductive GcraCheckError where
  | poisonedShard (error : PoisonedShardError)
  | arithmeticOverflow
  deriving DecidableEq, Repr

inductive GcraBatchError where
  | store (error : MemoryBatchError)
  | arithmeticOverflow
  deriving DecidableEq, Repr

variable [Sha2]

/-- `gcra::PreparedCheck`. -/
structure PreparedGcraCheck where
  inputIndex : ℕ
  counterKey : CounterKey
  shardPosition : ℕ
  check : Check GcraPolicy
  quotaMode : QuotaMode

namespace Shard

/-- `Shard<gcra::Entry>::evaluate`. -/
def evaluate (s : Shard GcraEntry) (check : PreparedGcraCheck) (nowMillis : ℕ) :
    Except ArithmeticOverflow QuotaEvaluation :=
  let activeTat := (s.activeEntry check.counterKey nowMillis).map fun (entry, _) => entry.tatScaled
  Gcra.evaluate check.check nowMillis activeTat

/-- `Shard<gcra::Entry>::consume`. -/
def consumeGcra (s : Shard GcraEntry) (check : PreparedGcraCheck) (allowance : PendingAllowance) :
    Panics (Allowance × Shard GcraEntry) := do
  let (_, s) ← s.replace check.counterKey ⟨allowance.tatScaled⟩ allowance.expiresAtMillis
  return (allowance.allowance, s)

end Shard

namespace GcraStore

variable {config : MemoryStoreConfig}

/-- `PreparedCheck::new`. -/
def prepare (inputIndex : ℕ) (check : Check GcraPolicy) (shardPosition : ℕ) : PreparedGcraCheck :=
  ⟨inputIndex, check.counterKey, shardPosition, check, check.quotaMode⟩

/-! ### Single checks -/

/-- What `check_inner` does while it holds the lock of the check's shard. An overflow
returns before the shard is touched. -/
def checkLocked (config : MemoryStoreConfig) (clock : Panics Duration) (check : Check GcraPolicy)
    (shardIndex : ℕ) (shard : Shard GcraEntry) :
    Panics (Except ArithmeticOverflow (Evaluation Decision ShardEffect) × Shard GcraEntry) := do
  let prepared := prepare 0 check 0
  let observedMillis := (← clock).asMillis
  let nowMillis := max observedMillis shard.latestObservedMillis
  match shard.evaluate prepared nowMillis with
  | .error error => return (.error error, shard)
  | .ok evaluated =>
    let shard := shard.recordObservedMillis nowMillis
    let requested := config.maxExpiredRemovalsPerCheck
    let (removed, shard) ← shard.pruneExpired nowMillis requested
    let (decision, shard) ←
      match evaluated with
      | .allowed allowance =>
        if !shard.containsKey check.counterKey && decide (shard.capacity ≤ shard.used) then do
          pure (Decision.denied (← shard.storageCapacityDenial nowMillis), shard)
        else do
          let (allowance, shard) ← shard.consumeGcra prepared allowance
          pure (Decision.allowed allowance, shard)
      | .denied denial => pure (Decision.quotaExceeded prepared.quotaMode denial, shard)
    return (.ok ⟨decision, ⟨shardIndex, ⟨requested, removed⟩, shard.used, shard.capacity⟩⟩, shard)

/-- `GcraStore::check_inner`. -/
def checkInner (clock : Panics Duration) (check : Check GcraPolicy)
    (shards : BoundedShards config GcraEntry) :
    CallResult (Except GcraCheckError (Evaluation Decision ShardEffect)) ×
      BoundedShards config GcraEntry :=
  let shardIndex := config.shardIndex check.counterKey
  match shards.lockShard shardIndex with
  | .error error => (.returned (.error (.poisonedShard error)), shards)
  | .ok guard =>
    match checkLocked config clock check guard (shards.data guard) with
    | .error _ => (.panicked, shards.poison [guard])
    | .ok (result, shard) =>
      (.returned (result.mapError fun _ => .arithmeticOverflow),
        shards.unlock (Function.update shards.data guard shard))

/-- `GcraStore::check`. -/
def check (clock : Panics Duration) (check : Check GcraPolicy)
    (shards : BoundedShards config GcraEntry) :
    CallResult (Except GcraCheckError Decision) × BoundedShards config GcraEntry :=
  match checkInner clock check shards with
  | (.returned result, shards) => (.returned (result.map (·.value)), shards)
  | (.panicked, shards) => (.panicked, shards)

/-! ### Atomic batches -/

section Batch

variable {n : ℕ}

/-- The evaluation loop, which an overflow of any check leaves. -/
def evaluateAll (locked : List (Fin n)) (data : Fin n → Shard GcraEntry) (nowMillis : ℕ) :
    List PreparedGcraCheck → Panics (Except ArithmeticOverflow (List QuotaEvaluation))
  | [] => pure (.ok [])
  | check :: rest => do
    let shard := data (← indexed locked check.shardPosition)
    match shard.evaluate check nowMillis with
    | .error error => return .error error
    | .ok evaluation =>
      return (← evaluateAll locked data nowMillis rest).map (evaluation :: ·)

/-- The preflight loop: the first denial in caller order, or every pending allowance. -/
def preflight (batchSize : ℕ) (locked : List (Fin n)) (data : Fin n → Shard GcraEntry)
    (nowMillis : ℕ) :
    List ℕ → List (PreparedGcraCheck × QuotaEvaluation) →
      Panics (Except BatchDecision (List PendingAllowance))
  | _, [] => pure (.ok [])
  | pending, (check, evaluation) :: rest => do
    let shard := data (← indexed locked check.shardPosition)
    match evaluation with
    | .denied denial =>
      let decision ← expectOk "a prepared check's input index is below the batch size"
        (BatchDecision.quotaExceeded check.quotaMode check.inputIndex batchSize denial)
      return .error decision
    | .allowed allowance =>
      if shard.containsKey check.counterKey then
        return (← preflight batchSize locked data nowMillis pending rest).map (allowance :: ·)
      else
        let inserted ← indexed pending check.shardPosition
        let projected ← addUsize shard.used inserted
        if shard.capacity ≤ projected then
          let denial ← shard.storageCapacityDenial nowMillis
          let decision ← expectOk "a prepared check's input index is below the batch size"
            (BatchDecision.denied check.inputIndex batchSize denial)
          return .error decision
        else
          let inserted ← addUsize inserted 1
          return (← preflight batchSize locked data nowMillis
            (pending.set check.shardPosition inserted) rest).map (allowance :: ·)

/-- The consumption loop, in caller order. -/
def consumeAll (locked : List (Fin n)) :
    List (PreparedGcraCheck × PendingAllowance) → (Fin n → Shard GcraEntry) →
      Panics (List Allowance × (Fin n → Shard GcraEntry))
  | [], data => pure ([], data)
  | (check, allowance) :: rest, data => do
    let index ← indexed locked check.shardPosition
    let (consumed, shard) ← (data index).consumeGcra check allowance
    let (allowances, data) ← consumeAll locked rest (Function.update data index shard)
    return (consumed :: allowances, data)

/-- What `check_all_inner` does while it holds the locks of the batch's shards. -/
def checkAllLocked (removals : ℕ) (clock : Panics Duration) (batchSize : ℕ)
    (topology : BatchTopology n) (prepared : List PreparedGcraCheck) (locked : List (Fin n))
    (data : Fin n → Shard GcraEntry) :
    Panics (Except ArithmeticOverflow (Evaluation BatchDecision (List ShardEffect)) ×
      (Fin n → Shard GcraEntry)) := do
  let observedMillis := (← clock).asMillis
  let nowMillis := locked.foldl (fun now index => max now (data index).latestObservedMillis)
    observedMillis
  match ← evaluateAll locked data nowMillis prepared with
  | .error error => return (.error error, data)
  | .ok evaluations =>
    let (cleanupEffects, data) ←
      cleanupLocked removals nowMillis (locked.zip topology.checkCounts) data
    match ← preflight batchSize locked data nowMillis (List.replicate locked.length 0)
      (prepared.zip evaluations) with
    | .error decision =>
      return (.ok ⟨decision, ← collectShardEffects data locked cleanupEffects⟩, data)
    | .ok allowances =>
      let (consumed, data) ← consumeAll locked (prepared.zip allowances) data
      let decision ← expectOk "batch validation rejected the empty batch"
        (BatchDecision.allowed consumed)
      return (.ok ⟨decision, ← collectShardEffects data locked cleanupEffects⟩, data)

end Batch

/-- `GcraStore::check_all_inner`. -/
def checkAllInner (clock : Panics Duration) (checks : List (Check GcraPolicy))
    (shards : BoundedShards config GcraEntry) :
    CallResult (Except GcraBatchError (Evaluation BatchDecision (List ShardEffect))) ×
      BoundedShards config GcraEntry :=
  match validateBatch checks config.maxBatchSize with
  | .error error => (.returned (.error (.store (.invalidBatch error))), shards)
  | .ok () =>
    match BatchTopology.new config (checks.map fun check => config.shardIndex check.counterKey) with
    | .error _ => (.panicked, shards)
    | .ok (.error error) => (.returned (.error (.store error)), shards)
    | .ok (.ok topology) =>
      match checks.zipIdx.mapM fun p => do return prepare p.2 p.1 (← topology.shardPosition p.2) with
      | .error _ => (.panicked, shards)
      | .ok prepared =>
        match shards.lockTopology topology with
        | .error error => (.returned (.error (.store (.poisonedShard error))), shards)
        | .ok locked =>
          match checkAllLocked config.maxExpiredRemovalsPerCheck clock checks.length topology prepared
            locked shards.data with
          | .error _ => (.panicked, shards.poison locked)
          | .ok (result, data) =>
            (.returned (result.mapError fun _ => .arithmeticOverflow), shards.unlock data)

/-- `GcraStore::check_all`. -/
def checkAll (clock : Panics Duration) (checks : List (Check GcraPolicy))
    (shards : BoundedShards config GcraEntry) :
    CallResult (Except GcraBatchError BatchDecision) × BoundedShards config GcraEntry :=
  match checkAllInner clock checks shards with
  | (.returned result, shards) => (.returned (result.map (·.value)), shards)
  | (.panicked, shards) => (.panicked, shards)

end GcraStore

end Runlimit
