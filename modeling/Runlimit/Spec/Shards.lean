import Runlimit.Spec.Decision

/-!
# Bounded shards

The storage kernel both memory stores share: a shard is a map from counter keys to
entries with an expiry, an ordered index of the expiries, a hard capacity and the
greatest time it has observed. Keys are routed to shards by hash; an atomic batch
locks the shards it touches in ascending order. A mutex guard is a reference into the
store, so it is modelled as the index of the shard it guards.

Telemetry that holds real time (`elapsed`) is left out of the effects.
-/

namespace Runlimit

/-! ## Configuration -/

structure MemoryStoreConfig where
  maxKeys : ℕ
  shardCount : ℕ
  maxExpiredRemovalsPerCheck : ℕ
  maxBatchSize : ℕ
  maxKeys_le : maxKeys ≤ usizeMax
  shardCount_pos : 0 < shardCount
  shardCount_le : shardCount ≤ maxKeys
  removals_pos : 0 < maxExpiredRemovalsPerCheck
  batch_pos : 0 < maxBatchSize
  maxBatchSize_le : maxBatchSize ≤ usizeMax

inductive MemoryStoreConfigError where
  | zeroMaxKeys
  | zeroShardCount
  | moreShardsThanKeys (shardCount maxKeys : ℕ)
  | zeroExpiredRemovalLimit
  | zeroBatchSize
  deriving DecidableEq, Repr

namespace MemoryStoreConfig

theorem defaultRemovals_pos : 0 < 8 := by decide

theorem defaultBatch_pos : 0 < 32 := by decide

theorem defaultBatch_le : 32 ≤ usizeMax := by decide

/-- `MemoryStoreConfig::new`: one shard, eight removals per check, batches of 32. The
bound is what the parameter's type `usize` says. -/
def new (maxKeys : ℕ) (h : maxKeys ≤ usizeMax) : Except MemoryStoreConfigError MemoryStoreConfig :=
  if h0 : maxKeys = 0 then .error .zeroMaxKeys
  else .ok ⟨maxKeys, min 1 maxKeys, 8, 32, h, by omega, min_le_right _ _, defaultRemovals_pos, defaultBatch_pos, defaultBatch_le⟩

def withShardCount (config : MemoryStoreConfig) (shardCount : ℕ) :
    Except MemoryStoreConfigError MemoryStoreConfig :=
  if h0 : shardCount = 0 then .error .zeroShardCount
  else if h : config.maxKeys < shardCount then .error (.moreShardsThanKeys shardCount config.maxKeys)
  else .ok { config with
    shardCount, shardCount_pos := Nat.pos_of_ne_zero h0, shardCount_le := Nat.not_lt.1 h }

def withMaxExpiredRemovalsPerCheck (config : MemoryStoreConfig) (maximum : ℕ) :
    Except MemoryStoreConfigError MemoryStoreConfig :=
  if h0 : maximum = 0 then .error .zeroExpiredRemovalLimit
  else .ok { config with maxExpiredRemovalsPerCheck := maximum, removals_pos := Nat.pos_of_ne_zero h0 }

def withMaxBatchSize (config : MemoryStoreConfig) (maximum : ℕ) (h : maximum ≤ usizeMax) :
    Except MemoryStoreConfigError MemoryStoreConfig :=
  if h0 : maximum = 0 then .error .zeroBatchSize
  else .ok { config with
    maxBatchSize := maximum, batch_pos := Nat.pos_of_ne_zero h0, maxBatchSize_le := h }

/-- The fixed share of the global capacity held by one shard. -/
def shardCapacity (config : MemoryStoreConfig) (shardIndex : ℕ) : ℕ :=
  config.maxKeys / config.shardCount + if shardIndex < config.maxKeys % config.shardCount then 1 else 0

/-- `BoundedShards::shard_index`. -/
def shardIndex (config : MemoryStoreConfig) (key : CounterKey) : Fin config.shardCount :=
  ⟨(counterKeyHash key).toNat % config.shardCount, Nat.mod_lt _ config.shardCount_pos⟩

end MemoryStoreConfig

/-! ## One shard -/

/-- An entry of the expiration index, ordered by expiry and then by key. -/
@[ext]
structure Expiration where
  expiresAtMillis : ℕ
  key : CounterKey
  deriving DecidableEq

instance : LinearOrder Expiration :=
  LinearOrder.lift' (fun e => toLex (e.expiresAtMillis, e.key)) fun a b h => by
    have h' : (a.expiresAtMillis, a.key) = (b.expiresAtMillis, b.key) := h
    exact Expiration.ext (congrArg Prod.fst h') (congrArg Prod.snd h')

@[ext]
structure StoredEntry (E : Type) where
  value : E
  expiresAtMillis : ℕ
  deriving DecidableEq

@[ext]
structure Shard (E : Type) where
  capacity : ℕ
  latestObservedMillis : ℕ
  entries : Table CounterKey (StoredEntry E)
  expirations : Finset Expiration

namespace Shard

variable {E : Type}

def new (capacity : ℕ) : Shard E := ⟨capacity, 0, ∅, ∅⟩

def used (s : Shard E) : ℕ := s.entries.keys.card

def recordObservedMillis (s : Shard E) (nowMillis : ℕ) : Shard E :=
  { s with latestObservedMillis := nowMillis }

def containsKey (s : Shard E) (key : CounterKey) : Bool := (s.entries.lookup key).isSome

/-- The entry of a key and its expiry, unless it has expired. -/
def activeEntry (s : Shard E) (key : CounterKey) (nowMillis : ℕ) : Option (E × ℕ) :=
  match s.entries.lookup key with
  | none => none
  | some entry =>
    if nowMillis < entry.expiresAtMillis then some (entry.value, entry.expiresAtMillis) else none

/-- Changes the value of a stored key in place; `none` if the key is absent. -/
def updateValue (s : Shard E) (key : CounterKey) (update : E → E) : Option (Shard E) :=
  (s.entries.lookup key).map fun entry =>
    { s with entries := s.entries.insert key { entry with value := update entry.value } }

/-- Stores an entry and moves its index entry along; returns the previous value. -/
def replace (s : Shard E) (key : CounterKey) (value : E) (expiresAtMillis : ℕ) :
    Panics (Option E × Shard E) := do
  let previous := s.entries.lookup key
  let entries := s.entries.insert key ⟨value, expiresAtMillis⟩
  let expirations ← match previous with
    | some entry => do
      debugAssert (⟨entry.expiresAtMillis, key⟩ ∈ s.expirations)
        "a replaced entry must have one expiration"
      pure (s.expirations.erase ⟨entry.expiresAtMillis, key⟩)
    | none => pure s.expirations
  debugAssert (⟨expiresAtMillis, key⟩ ∉ expirations) "an inserted entry must have one expiration"
  return (previous.map (·.value),
    { s with entries, expirations := insert ⟨expiresAtMillis, key⟩ expirations })

/-- Removes at most `maximum` expired entries, earliest expiry first, and counts them. -/
def pruneExpired (nowMillis : ℕ) : (maximum : ℕ) → Shard E → Panics (ℕ × Shard E)
  | 0, s => pure (0, s)
  | maximum + 1, s =>
    match s.expirations.first with
    | none => pure (0, s)
    | some expiration =>
      if nowMillis < expiration.expiresAtMillis then pure (0, s)
      else do
        let removed := s.entries.lookup expiration.key
        debugAssert (removed.map (·.expiresAtMillis) = some expiration.expiresAtMillis)
          "the entry and expiration indexes diverged"
        let (count, s') ← pruneExpired nowMillis maximum
          { s with
            entries := s.entries.erase expiration.key
            expirations := s.expirations.erase expiration }
        return (← addUsize count (if removed.isSome then 1 else 0), s')

def capacityRetryAfterMillis (s : Shard E) (nowMillis : ℕ) : Option ℕ :=
  s.expirations.first.map fun expiration => max (expiration.expiresAtMillis - nowMillis) 1

/-- The denial of a new key that cannot fit in this full shard. -/
def storageCapacityDenial (s : Shard E) (nowMillis : ℕ) : Panics Denial :=
  match s.capacityRetryAfterMillis nowMillis with
  | none => pure (.storageCapacity none)
  | some millis =>
    if millis ≤ u64Max then pure (.storageCapacity (some ⟨Duration.fromMillis millis⟩))
    else .error (.expect
      "a stored entry's remaining duration cannot exceed its portable policy window")

end Shard

/-! ## Errors -/

structure PoisonedShardError where
  shardIndex : ℕ
  deriving DecidableEq, Repr

inductive MemoryBatchError where
  | invalidBatch (error : BatchError)
  | batchExceedsShardCapacity (shardIndex keyCount capacity : ℕ)
  | poisonedShard (error : PoisonedShardError)
  deriving DecidableEq, Repr

/-! ## Batch routing -/

structure BatchShard (n : ℕ) where
  index : Fin n
  checkCount : ℕ
  deriving DecidableEq

/-- The shards a batch touches, ascending, and for each input its place among them. -/
structure BatchTopology (n : ℕ) where
  shards : List (BatchShard n)
  inputPositions : List ℕ

namespace BatchTopology

variable {n : ℕ}

/-- `slice.partition_point(p)` of a slice partitioned by `p`. -/
def partitionPoint {α : Type} (p : α → Bool) (l : List α) : ℕ := (l.takeWhile p).length

/-- The loop that replaces each input's shard index by its position and counts it. -/
def route : List (BatchShard n) → List (Fin n) → Panics (List (BatchShard n) × List ℕ)
  | shards, [] => pure (shards, [])
  | shards, shardIndex :: rest => do
    let position := partitionPoint (fun shard => decide (shard.index < shardIndex)) shards
    let shard ← indexed shards position
    debugAssert (shard.index = shardIndex) "assertion failed: shard.index == shard_index"
    let checkCount ← addUsize shard.checkCount 1
    let (shards, positions) ← route (shards.set position { shard with checkCount }) rest
    return (shards, position :: positions)

/-- The sorted, deduplicated shards of the inputs, with zero counts. -/
def distinctShards (shardIndexes : List (Fin n)) : List (BatchShard n) :=
  ((shardIndexes.map fun index => BatchShard.mk index 0).insertionSort
    fun a b => a.index ≤ b.index).destutter fun a b => a.index ≠ b.index

/-- `BatchTopology::new`. -/
def new (config : MemoryStoreConfig) (shardIndexes : List (Fin config.shardCount)) :
    Panics (Except MemoryBatchError (BatchTopology config.shardCount)) := do
  let (shards, inputPositions) ← route (distinctShards shardIndexes) shardIndexes
  match shards.find? fun shard => decide (config.shardCapacity shard.index < shard.checkCount) with
  | some shard =>
    return .error (.batchExceedsShardCapacity shard.index shard.checkCount
      (config.shardCapacity shard.index))
  | none => return .ok ⟨shards, inputPositions⟩

def shardPosition (topology : BatchTopology n) (inputIndex : ℕ) : Panics ℕ :=
  indexed topology.inputPositions inputIndex

def checkCounts (topology : BatchTopology n) : List ℕ := topology.shards.map (·.checkCount)

end BatchTopology

/-! ## The shards of a store -/

abbrev BoundedShards (config : MemoryStoreConfig) (E : Type) :=
  Fin config.shardCount → Mutex (Shard E)

namespace BoundedShards

variable {config : MemoryStoreConfig} {E : Type}

def new (config : MemoryStoreConfig) : BoundedShards config E := fun index =>
  { data := Shard.new (config.shardCapacity index) }

def lockShard (shards : BoundedShards config E) (index : Fin config.shardCount) :
    Except PoisonedShardError (Fin config.shardCount) :=
  if (shards index).poisoned then .error ⟨index⟩ else .ok index

/-- `lock_topology`: the guards in the order of the topology, or the first poisoned shard. -/
def lockTopology (shards : BoundedShards config E) (topology : BatchTopology config.shardCount) :
    Except PoisonedShardError (List (Fin config.shardCount)) :=
  topology.shards.mapM fun shard => lockShard shards shard.index

/-- What the guards give access to. -/
def data (shards : BoundedShards config E) : Fin config.shardCount → Shard E :=
  fun index => (shards index).data

/-- Releases the guards after the holder has run to its end. -/
def unlock (shards : BoundedShards config E) (data : Fin config.shardCount → Shard E) :
    BoundedShards config E :=
  fun index => { shards index with data := data index }

/-- Releases the guards of a holder that unwinds. -/
def poison (shards : BoundedShards config E) (locked : List (Fin config.shardCount)) :
    BoundedShards config E :=
  fun index => if index ∈ locked then { shards index with poisoned := true } else shards index

end BoundedShards

/-! ## Telemetry of one operation -/

structure CleanupEffect where
  requested : ℕ
  removed : ℕ
  deriving DecidableEq, Repr

structure ShardEffect where
  shardIndex : ℕ
  cleanup : CleanupEffect
  used : ℕ
  capacity : ℕ
  deriving DecidableEq, Repr

structure Evaluation (T E : Type) where
  value : T
  effect : E

def collectShardEffects {n : ℕ} {E : Type} (data : Fin n → Shard E) (locked : List (Fin n))
    (cleanupEffects : List CleanupEffect) : Panics (List ShardEffect) := do
  debugAssert (locked.length = cleanupEffects.length)
    "assertion failed: locked_shards.len() == cleanup_effects.len()"
  return locked.zipWith
    (fun index cleanup => ShardEffect.mk index.val cleanup (data index).used (data index).capacity)
    cleanupEffects

/-- The cleanup loop of a batch: each locked shard records the time and removes at most
`removals` expired entries for each check that targets it. -/
def cleanupLocked {n : ℕ} {E : Type} (removals nowMillis : ℕ) :
    List (Fin n × ℕ) → (Fin n → Shard E) → Panics (List CleanupEffect × (Fin n → Shard E))
  | [], data => pure ([], data)
  | (index, checkCount) :: rest, data => do
    let requested := saturatingMul removals checkCount
    let (removed, shard) ←
      ((data index).recordObservedMillis nowMillis).pruneExpired nowMillis requested
    let (effects, data) ← cleanupLocked removals nowMillis rest (Function.update data index shard)
    return (⟨requested, removed⟩ :: effects, data)

end Runlimit
