import Runlimit.Spec.Run

/-!
# The whole interface of the memory stores

Besides admission a store can be cleared, and poisoned shards can be rebuilt. The clock is
supplied by the caller and may panic while an operation holds its locks, which poisons the
shards it has locked. A run of this interface is any sequence of such requests.
-/

namespace Runlimit

variable {P E : Type} [RateLimitPolicy P]

structure MemoryStoreStats where
  entries : ℕ
  capacity : ℕ
  shardCount : ℕ
  deriving DecidableEq, Repr

/-- `Shard::clear`: the observed time stays. -/
def Shard.clear (s : Shard E) : Shard E := { s with entries := ∅, expirations := ∅ }

namespace BoundedShards

variable {config : MemoryStoreConfig}

/-- `lock_shards`: the guards in the given order, or the first poisoned shard. -/
def lockShards (shards : BoundedShards config E) (indexes : List (Fin config.shardCount)) :
    Except PoisonedShardError (List (Fin config.shardCount)) :=
  indexes.mapM shards.lockShard

/-- `BoundedShards::clear`: every shard is locked before any is cleared. -/
def clear (shards : BoundedShards config E) : Except PoisonedShardError Unit × BoundedShards config E :=
  match shards.lockShards (List.finRange config.shardCount) with
  | .error error => (.error error, shards)
  | .ok locked =>
    (.ok (), shards.unlock (locked.foldl (fun data i => Function.update data i (data i).clear) shards.data))

/-- `BoundedShards::recover_poisoned`: poisoned shards are rebuilt empty, and counted. -/
def recoverPoisoned (shards : BoundedShards config E) : ℕ × BoundedShards config E :=
  ((List.finRange config.shardCount).countP fun i => (shards i).poisoned,
    fun i => if (shards i).poisoned then { data := Shard.new (config.shardCapacity i) } else shards i)

/-- `BoundedShards::stats`. -/
def stats (shards : BoundedShards config E) : Panics (Except PoisonedShardError MemoryStoreStats) :=
  match shards.lockShards (List.finRange config.shardCount) with
  | .error error => pure (.error error)
  | .ok locked => do
    let entries ← locked.foldlM (fun total i => addUsize total (shards i).data.used) 0
    return .ok ⟨entries, config.maxKeys, config.shardCount⟩

end BoundedShards

inductive StoreRequest (P : Type) [RateLimitPolicy P] where
  /-- `check` or `check_all`, with what the clock does. -/
  | tryAdmit (clock : Panics Duration) (request : Request P)
  | clear
  | recoverPoisoned

def StoreRequest.checks : StoreRequest P → List (Check P)
  | .tryAdmit _ request => request.checks
  | .clear => []
  | .recoverPoisoned => []

inductive StoreResponse where
  | admission (response : Response)
  | clear (result : Except PoisonedShardError Unit)
  | recovered (count : ℕ)

/-- The interface of a store, given its admission. -/
def performWith {config : MemoryStoreConfig}
    (tryAdmit : Panics Duration → Request P → BoundedShards config E → Response × BoundedShards config E)
    (request : StoreRequest P) (shards : BoundedShards config E) :
    StoreResponse × BoundedShards config E :=
  match request with
  | .tryAdmit clock request =>
    let (response, shards) := tryAdmit clock request shards
    (.admission response, shards)
  | .clear =>
    let (result, shards) := shards.clear
    (.clear result, shards)
  | .recoverPoisoned =>
    let (count, shards) := shards.recoverPoisoned
    (.recovered count, shards)

namespace MemoryStore

variable [Sha2] {config : MemoryStoreConfig}

def tryAdmit (clock : Panics Duration) (request : Request FixedWindowPolicy)
    (shards : BoundedShards config WindowEntry) : Response × BoundedShards config WindowEntry :=
  match request with
  | .check c =>
    let (result, shards) := check clock c shards
    (.check (result.map (·.mapError .poisonedShard)), shards)
  | .checkAll checks =>
    let (result, shards) := checkAll clock checks shards
    (.checkAll (result.map (·.mapError .store)), shards)

def perform : StoreRequest FixedWindowPolicy → BoundedShards config WindowEntry →
    StoreResponse × BoundedShards config WindowEntry :=
  performWith tryAdmit

/-- The store after some requests. -/
def reached (config : MemoryStoreConfig) (requests : List (StoreRequest FixedWindowPolicy)) :
    BoundedShards config WindowEntry :=
  Machine.final perform (BoundedShards.new config) requests

end MemoryStore

namespace GcraStore

variable [Sha2] {config : MemoryStoreConfig}

def tryAdmit (clock : Panics Duration) (request : Request GcraPolicy)
    (shards : BoundedShards config GcraEntry) : Response × BoundedShards config GcraEntry :=
  match request with
  | .check c =>
    let (result, shards) := check clock c shards
    (.check result, shards)
  | .checkAll checks =>
    let (result, shards) := checkAll clock checks shards
    (.checkAll result, shards)

def perform : StoreRequest GcraPolicy → BoundedShards config GcraEntry →
    StoreResponse × BoundedShards config GcraEntry :=
  performWith tryAdmit

/-- The store after some requests. -/
def reached (config : MemoryStoreConfig) (requests : List (StoreRequest GcraPolicy)) :
    BoundedShards config GcraEntry :=
  Machine.final perform (BoundedShards.new config) requests

end GcraStore

end Runlimit
