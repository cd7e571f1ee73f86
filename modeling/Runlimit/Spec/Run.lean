import Runlimit.Machine.Run
import Runlimit.Proof.GcraExact

/-!
# Runs of the memory stores

A run is a sequence of calls with one clock reading each. An event of a run is what a caller
and an observer of the clock see of one call: the time it was evaluated at, the request and
the response. The stores and the reference store are three machines over the same calls and
events.
-/

namespace Runlimit

variable {P E : Type} [RateLimitPolicy P]

inductive Request (P : Type) [RateLimitPolicy P] where
  | check (check : Check P)
  | checkAll (checks : List (Check P))

def Request.checks : Request P → List (Check P)
  | .check c => [c]
  | .checkAll checks => checks

/-- One call: what the clock reads, and what is asked. -/
structure Call (P : Type) [RateLimitPolicy P] where
  reading : Duration
  request : Request P

/-- What a call gives its caller. The errors of the fixed-window store are among those of the
GCRA store, and are embedded in them. -/
inductive Response where
  | check (result : CallResult (Except GcraCheckError Decision))
  | checkAll (result : CallResult (Except GcraBatchError BatchDecision))

def CallResult.map {α β : Type} (f : α → β) : CallResult α → CallResult β
  | .returned a => .returned (f a)
  | .panicked => .panicked

structure Event (P : Type) [RateLimitPolicy P] where
  nowMillis : ℕ
  request : Request P
  response : Response

/-- The times the shards of a store have observed. -/
def BoundedShards.observed {config : MemoryStoreConfig} (shards : BoundedShards config E) :
    Fin config.shardCount → ℕ :=
  fun i => (shards i).data.latestObservedMillis

/-- A step of a store: it answers, and the event records the time of the evaluation. -/
def serveWith {config : MemoryStoreConfig} {S : Type} (observed : S → Fin config.shardCount → ℕ)
    (answer : Call P → S → Response × S) (call : Call P) (s : S) : Event P × S :=
  (⟨clampedMillis (observed s) call.request.checks call.reading, call.request, (answer call s).1⟩,
    (answer call s).2)

namespace MemoryStore

variable [Sha2] {config : MemoryStoreConfig}

def answer (call : Call FixedWindowPolicy) (shards : BoundedShards config WindowEntry) :
    Response × BoundedShards config WindowEntry :=
  match call.request with
  | .check c =>
    let (result, shards) := check (.ok call.reading) c shards
    (.check (result.map (·.mapError .poisonedShard)), shards)
  | .checkAll checks =>
    let (result, shards) := checkAll (.ok call.reading) checks shards
    (.checkAll (result.map (·.mapError .store)), shards)

def serve : Call FixedWindowPolicy → BoundedShards config WindowEntry →
    Event FixedWindowPolicy × BoundedShards config WindowEntry :=
  serveWith BoundedShards.observed answer

/-- The events of a run of a new store. -/
def run (config : MemoryStoreConfig) (calls : List (Call FixedWindowPolicy)) :
    List (Event FixedWindowPolicy) :=
  Machine.outputs serve (BoundedShards.new config) calls

/-- The store a run ends in. -/
def after (config : MemoryStoreConfig) (calls : List (Call FixedWindowPolicy)) :
    BoundedShards config WindowEntry :=
  Machine.final serve (BoundedShards.new config) calls

end MemoryStore

namespace GcraStore

variable [Sha2] {config : MemoryStoreConfig}

def answer (call : Call GcraPolicy) (shards : BoundedShards config GcraEntry) :
    Response × BoundedShards config GcraEntry :=
  match call.request with
  | .check c =>
    let (result, shards) := check (.ok call.reading) c shards
    (.check result, shards)
  | .checkAll checks =>
    let (result, shards) := checkAll (.ok call.reading) checks shards
    (.checkAll result, shards)

def serve : Call GcraPolicy → BoundedShards config GcraEntry →
    Event GcraPolicy × BoundedShards config GcraEntry :=
  serveWith BoundedShards.observed answer

/-- The events of a run of a new store. -/
def run (config : MemoryStoreConfig) (calls : List (Call GcraPolicy)) : List (Event GcraPolicy) :=
  Machine.outputs serve (BoundedShards.new config) calls

/-- The store a run ends in. -/
def after (config : MemoryStoreConfig) (calls : List (Call GcraPolicy)) :
    BoundedShards config GcraEntry :=
  Machine.final serve (BoundedShards.new config) calls

end GcraStore

namespace RefStore

variable {config : MemoryStoreConfig}

def observed (store : RefStore config E) : Fin config.shardCount → ℕ := fun i => (store i).observedMillis

/-- The answer at the time the clock and the touched shards give. -/
def answer (alg : Algorithm P E) (call : Call P) (store : RefStore config E) :
    Response × RefStore config E :=
  let now := clampedMillis store.observed call.request.checks call.reading
  match call.request with
  | .check c =>
    let (result, store) := check alg now c store
    (.check (.returned (result.mapError fun _ => .arithmeticOverflow)), store)
  | .checkAll checks =>
    let (result, store) := checkAll alg now checks store
    (.checkAll (.returned result), store)

def serve (alg : Algorithm P E) : Call P → RefStore config E → Event P × RefStore config E :=
  serveWith observed (answer alg)

/-- The events of a run of a new reference store. -/
def run (alg : Algorithm P E) (config : MemoryStoreConfig) (calls : List (Call P)) : List (Event P) :=
  Machine.outputs (serve alg) (new config) calls

/-- The reference store a run ends in. -/
def after (alg : Algorithm P E) (config : MemoryStoreConfig) (calls : List (Call P)) :
    RefStore config E :=
  Machine.final (serve alg) (new config) calls

end RefStore

end Runlimit
