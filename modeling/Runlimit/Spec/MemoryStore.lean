import Runlimit.Spec.Shards

/-!
# The fixed-window memory store

`MemoryStore` counts the cost admitted for each key in a window anchored at the first
admitted check. A single check and an atomic batch are separate code paths: both clamp
the clock to the greatest time their shards have observed, remove a bounded number of
expired entries, and then either deny or consume.
-/

namespace Runlimit

/-- `store::Entry`. -/
structure WindowEntry where
  used : ℕ
  deriving DecidableEq, Repr

/-- `store::PreparedCheck`. -/
structure PreparedWindowCheck where
  inputIndex : ℕ
  counterKey : CounterKey
  shardPosition : ℕ
  limit : Capacity
  windowMillis : ℕ
  cost : ℕ

def remainingQuota (limit : Capacity) (used : ℕ) : Panics ℕ := do
  debugAssert (used ≤ limit.get) "stored quota usage exceeded its policy limit"
  return limit.get - used

def durationFromMillis (millis : ℕ) : Panics Duration :=
  if millis ≤ u64Max then pure (Duration.fromMillis millis)
  else .error (.expect "a counter's remaining duration cannot exceed its portable policy window")

/-- `store::allowance`. -/
def windowAllowance (limit : Capacity) (available : ℕ) (replenishesAfter : Duration) :
    Panics Allowance :=
  expectOk "remaining quota is derived from the limit and cannot exceed it"
    (Allowance.new limit available replenishesAfter)

namespace Shard

def quotaDenial (s : Shard WindowEntry) (check : PreparedWindowCheck) (nowMillis : ℕ) :
    Panics (Option QuotaDenial) :=
  match s.activeEntry check.counterKey nowMillis with
  | none => pure none
  | some (entry, expiresAtMillis) => do
    let remaining ← remainingQuota check.limit entry.used
    if remaining < check.cost then
      let retryAfter ← durationFromMillis (expiresAtMillis - nowMillis)
      return some (QuotaDenial.new check.limit retryAfter)
    else return none

/-- `Shard<store::Entry>::consume`. -/
def consumeWindow (s : Shard WindowEntry) (check : PreparedWindowCheck) (nowMillis : ℕ) :
    Panics (Allowance × Shard WindowEntry) := do
  let expiresAtMillis ← addU128 nowMillis check.windowMillis
  match s.activeEntry check.counterKey nowMillis with
  | some (entry, activeExpiresAtMillis) =>
    let remaining ← remainingQuota check.limit entry.used
    debugAssert (check.cost ≤ remaining) "quota denial must be checked before consumption"
    let s ← expectSome "the active entry was present"
      (s.updateValue check.counterKey fun entry => ⟨min (entry.used + check.cost) u64Max⟩)
    let replenishesAfter ← durationFromMillis (activeExpiresAtMillis - nowMillis)
    let allowance ← windowAllowance check.limit (remaining - check.cost) replenishesAfter
    return (allowance, s)
  | none =>
    let (_, s) ← s.replace check.counterKey ⟨check.cost⟩ expiresAtMillis
    let available ← remainingQuota check.limit check.cost
    let replenishesAfter ← durationFromMillis (expiresAtMillis - nowMillis)
    let allowance ← windowAllowance check.limit available replenishesAfter
    return (allowance, s)

end Shard

namespace MemoryStore

variable [Sha2] {config : MemoryStoreConfig}

/-- `PreparedCheck::new`. -/
def prepare (inputIndex : ℕ) (check : Check FixedWindowPolicy) (shardPosition : ℕ) :
    PreparedWindowCheck :=
  ⟨inputIndex, check.counterKey, shardPosition, check.policy.limit, check.policy.window.millis,
    check.cost⟩

/-! ## Single checks -/

/-- What `check_inner` does while it holds the lock of the check's shard. -/
def checkLocked (config : MemoryStoreConfig) (clock : Panics Duration)
    (check : Check FixedWindowPolicy) (shardIndex : ℕ) (shard : Shard WindowEntry) :
    Panics (Evaluation Decision ShardEffect × Shard WindowEntry) := do
  let prepared := prepare 0 check 0
  let observedMillis := (← clock).asMillis
  let nowMillis := max observedMillis shard.latestObservedMillis
  let shard := shard.recordObservedMillis nowMillis
  let requested := config.maxExpiredRemovalsPerCheck
  let (removed, shard) ← shard.pruneExpired nowMillis requested
  let (decision, shard) ←
    match ← shard.quotaDenial prepared nowMillis with
    | some denial => pure (Decision.quotaExceeded check.quotaMode denial, shard)
    | none =>
      if !shard.containsKey check.counterKey && decide (shard.capacity ≤ shard.used) then do
        pure (Decision.denied (← shard.storageCapacityDenial nowMillis), shard)
      else do
        let (allowance, shard) ← shard.consumeWindow prepared nowMillis
        pure (Decision.allowed allowance, shard)
  return (⟨decision, ⟨shardIndex, ⟨requested, removed⟩, shard.used, shard.capacity⟩⟩, shard)

/-- `MemoryStore::check_inner`. -/
def checkInner (clock : Panics Duration) (check : Check FixedWindowPolicy)
    (shards : BoundedShards config WindowEntry) :
    CallResult (Except PoisonedShardError (Evaluation Decision ShardEffect)) ×
      BoundedShards config WindowEntry :=
  let shardIndex := config.shardIndex check.counterKey
  match shards.lockShard shardIndex with
  | .error error => (.returned (.error error), shards)
  | .ok guard =>
    match checkLocked config clock check guard (shards.data guard) with
    | .error _ => (.panicked, shards.poison [guard])
    | .ok (evaluation, shard) =>
      (.returned (.ok evaluation), shards.unlock (Function.update shards.data guard shard))

/-- `MemoryStore::check`. -/
def check (clock : Panics Duration) (check : Check FixedWindowPolicy)
    (shards : BoundedShards config WindowEntry) :
    CallResult (Except PoisonedShardError Decision) × BoundedShards config WindowEntry :=
  match checkInner clock check shards with
  | (.returned result, shards) => (.returned (result.map (·.value)), shards)
  | (.panicked, shards) => (.panicked, shards)

/-! ## Atomic batches -/

section Batch

variable {n : ℕ}

/-- The preflight loop: the first denial in caller order, if there is one. `pending`
counts, for each locked shard, the keys the batch would insert there. -/
def preflight (checks : List (Check FixedWindowPolicy)) (locked : List (Fin n))
    (data : Fin n → Shard WindowEntry) (nowMillis : ℕ) :
    List ℕ → List PreparedWindowCheck → Panics (Option BatchDecision)
  | _, [] => pure none
  | pending, check :: rest => do
    let shard := data (← indexed locked check.shardPosition)
    match ← shard.quotaDenial check nowMillis with
    | some denial =>
      let mode := (← indexed checks check.inputIndex).quotaMode
      let decision ← expectOk "a prepared check's input index is below the batch size"
        (BatchDecision.quotaExceeded mode check.inputIndex checks.length denial)
      return some decision
    | none =>
      if shard.containsKey check.counterKey then preflight checks locked data nowMillis pending rest
      else
        let inserted ← indexed pending check.shardPosition
        let projected ← addUsize shard.used inserted
        if shard.capacity ≤ projected then
          let denial ← shard.storageCapacityDenial nowMillis
          let decision ← expectOk "a prepared check's input index is below the batch size"
            (BatchDecision.denied check.inputIndex checks.length denial)
          return some decision
        else
          let inserted ← addUsize inserted 1
          preflight checks locked data nowMillis (pending.set check.shardPosition inserted) rest

/-- The consumption loop, in caller order. -/
def consumeAll (locked : List (Fin n)) (nowMillis : ℕ) :
    List PreparedWindowCheck → (Fin n → Shard WindowEntry) →
      Panics (List Allowance × (Fin n → Shard WindowEntry))
  | [], data => pure ([], data)
  | check :: rest, data => do
    let index ← indexed locked check.shardPosition
    let (allowance, shard) ← (data index).consumeWindow check nowMillis
    let (allowances, data) ← consumeAll locked nowMillis rest (Function.update data index shard)
    return (allowance :: allowances, data)

/-- What `check_all_inner` does while it holds the locks of the batch's shards. -/
def checkAllLocked (removals : ℕ) (clock : Panics Duration) (checks : List (Check FixedWindowPolicy))
    (topology : BatchTopology n) (prepared : List PreparedWindowCheck) (locked : List (Fin n))
    (data : Fin n → Shard WindowEntry) :
    Panics (Evaluation BatchDecision (List ShardEffect) × (Fin n → Shard WindowEntry)) := do
  let observedMillis := (← clock).asMillis
  let nowMillis := locked.foldl (fun now index => max now (data index).latestObservedMillis)
    observedMillis
  let (cleanupEffects, data) ←
    cleanupLocked removals nowMillis (locked.zip topology.checkCounts) data
  match ← preflight checks locked data nowMillis (List.replicate locked.length 0) prepared with
  | some decision => return (⟨decision, ← collectShardEffects data locked cleanupEffects⟩, data)
  | none =>
    let (allowances, data) ← consumeAll locked nowMillis prepared data
    let decision ← expectOk "batch validation rejected the empty batch"
      (BatchDecision.allowed allowances)
    return (⟨decision, ← collectShardEffects data locked cleanupEffects⟩, data)

end Batch

/-- `MemoryStore::check_all_inner`. -/
def checkAllInner (clock : Panics Duration) (checks : List (Check FixedWindowPolicy))
    (shards : BoundedShards config WindowEntry) :
    CallResult (Except MemoryBatchError (Evaluation BatchDecision (List ShardEffect))) ×
      BoundedShards config WindowEntry :=
  match validateBatch checks config.maxBatchSize with
  | .error error => (.returned (.error (.invalidBatch error)), shards)
  | .ok () =>
    match BatchTopology.new config (checks.map fun check => config.shardIndex check.counterKey) with
    | .error _ => (.panicked, shards)
    | .ok (.error error) => (.returned (.error error), shards)
    | .ok (.ok topology) =>
      match checks.zipIdx.mapM fun p => do return prepare p.2 p.1 (← topology.shardPosition p.2) with
      | .error _ => (.panicked, shards)
      | .ok prepared =>
        match shards.lockTopology topology with
        | .error error => (.returned (.error (.poisonedShard error)), shards)
        | .ok locked =>
          match checkAllLocked config.maxExpiredRemovalsPerCheck clock checks topology prepared
            locked shards.data with
          | .error _ => (.panicked, shards.poison locked)
          | .ok (evaluation, data) => (.returned (.ok evaluation), shards.unlock data)

/-- `MemoryStore::check_all`. -/
def checkAll (clock : Panics Duration) (checks : List (Check FixedWindowPolicy))
    (shards : BoundedShards config WindowEntry) :
    CallResult (Except MemoryBatchError BatchDecision) × BoundedShards config WindowEntry :=
  match checkAllInner clock checks shards with
  | (.returned result, shards) => (.returned (result.map (·.value)), shards)
  | (.panicked, shards) => (.panicked, shards)

end MemoryStore

end Runlimit
