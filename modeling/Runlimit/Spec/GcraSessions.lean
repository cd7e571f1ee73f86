import Runlimit.Spec.PgGcra
import Runlimit.Ledger.Sessions

/-!
# Concurrent sessions of the durable GCRA limiter

An admission is the statement sequence of `gcra::run_transaction`: it locks the ledger rows of its shards, in
ascending order, and only then reads the clock, the counters, and writes. It holds these locks to its end, so the
counts it has read are those it finds later. A cleanup locks the shards that have expired rows and are free, moves
their time on and deletes. Other writers insert and delete counters and know nothing of the protocol; the row
triggers make them count, and wait for the ledger rows.

The clock may go back: a statement that samples it says what it read.
-/

namespace Runlimit

/-- `runlimit_gcra_shards` and `runlimit_gcra`, as tables under transactions. -/
abbrev GcraStore := Ledger.Tables CounterKey GcraRow CapacityShard LedgerRow

abbrev GcraTxn := Ledger.Txn CounterKey GcraRow CapacityShard LedgerRow

/-- The tables a statement works on. -/
def GcraStore.tables (store : GcraStore) : GcraTables := ⟨store.ledger, store.rows⟩

def GcraTables.store (tables : GcraTables) : GcraStore := ⟨tables.shards, tables.rows⟩

namespace PgGcra

section Sessions

variable [Sha2]

/-- Where an admission is in its statements. -/
inductive AdmissionPhase where
  /-- `LOCK_SHARDS`, with the shards it has yet to lock. -/
  | shardLocks (todo : List CapacityShard)
  /-- `READ_COUNTERS`, at the clamped time. -/
  | reading (now : ℕ)
  /-- `UPSERT`, with its rows and the answer it will give. -/
  | upsert (now : ℕ) (entries : List (CounterKey × GcraRow)) (response : PgResponse)
  /-- The update of the time of its shards. -/
  | observing (now : ℕ) (response : PgResponse)
  | allowed (response : PgResponse)
  | denied (response : PgResponse)
  | failed (error : PgCheckError)

/-- Where a cleanup is in its statements. -/
inductive CleanupPhase where
  /-- `CLEANUP_LOCKS`, with its sample. -/
  | shardLocks (sample : ℕ)
  /-- `CLEANUP_DELETE`. -/
  | deleting
  | deleted

inductive Program where
  | admission (config : PostgresConfig) (request : Request GcraPolicy) (phase : AdmissionPhase)
  | cleanup (maximumRows : ℕ) (shards : List CapacityShard) (phase : CleanupPhase)
  /-- Another writer, with the keys it has inserted. -/
  | other (inserted : List CounterKey)

abbrev Session := Ledger.Session CounterKey GcraRow CapacityShard LedgerRow Empty Program

abbrev World := Ledger.World CounterKey GcraRow CapacityShard LedgerRow Empty Program

/-- What a session sees of the tables. -/
def view (w : World) (session : Session) : GcraTables := GcraStore.tables (session.txn.view w.committed)

/-! ## Admissions -/

/-- The `build` of `check` and of `check_all`. -/
def buildResponse : Request GcraPolicy → Admission → Except PgCheckError PgResponse
  | .check _, admission => do return .check (.ok (← singleDecision admission))
  | .checkAll checks, admission => do return .checkAll (.ok (← batchDecision checks.length admission))

/-- The next phase of a computation that may fail. -/
def orFailed : Except PgCheckError AdmissionPhase → AdmissionPhase
  | .ok phase => phase
  | .error error => .failed error

/-- What an admission does with the counters it has read. -/
def evaluated (config : PostgresConfig) (request : Request GcraPolicy) (now : ℕ) (tables : GcraTables) :
    Except PgCheckError AdmissionPhase := do
  let shards := lockedShards request.checks
  let counts shard := if shard ∈ shards then (tables.shards shard).rowCount else 0
  let rows := request.checks.map fun check => tables.rows.lookup check.counterKey
  match ← evaluate request.checks rows counts config.maximumRowsPerShard now with
  | .denied admission => return .denied (← buildResponse request admission)
  | .allowed allowances =>
    let entries ← upsertRows request.checks allowances
    return .upsert now entries (← buildResponse request (.allowed (allowances.map (·.allowance))))

/-- The next lock or statement of an admission, at its sample; `none` if it has to wait or is at its end. -/
def advanceAdmission (w : World) (i sample : ℕ) (session : Session) (config : PostgresConfig)
    (request : Request GcraPolicy) : AdmissionPhase → Option Session
  | .shardLocks (shard :: todo) =>
    if w.free i (.ledger shard) then
      some { session with
        txn := session.txn.lock ∅ {shard} w.committed
        program := .admission config request (.shardLocks todo) }
    else none
  | .shardLocks [] =>
    some { session with
      program := .admission config request
        (orFailed ((readLedger (view w session) (lockedShards request.checks) sample).map .reading)) }
  | .reading now =>
    some { session with program := .admission config request (orFailed (evaluated config request now (view w session))) }
  | .upsert now entries response =>
    if ∀ entry ∈ entries, w.free i (.row entry.1) ∧ w.free i (.ledger (capacityShard entry.1)) then
      match entries.foldlM upsertRow (view w session) with
      | .ok tables =>
        if entries.length ≠ request.checks.length then
          some { session with
            program := .admission config request
              (.failed (.storageInvariant "GCRA upsert count disagrees with the batch")) }
        else
          some { session with
            txn := session.txn.write (entries.map Prod.fst).toFinset
              (entries.map fun entry => capacityShard entry.1).toFinset tables.store
            program := .admission config request (.observing now response) }
      | .error error => some { session with program := .admission config request (.failed error) }
    else none
  | .observing now response =>
    if ∀ shard ∈ lockedShards request.checks, w.free i (.ledger shard) then
      some { session with
        txn := session.txn.write ∅ (lockedShards request.checks).toFinset
          (setObserved (lockedShards request.checks) now (view w session)).store
        program := .admission config request (.allowed response) }
    else none
  | .allowed _ => none
  | .denied _ => none
  | .failed _ => none

/-! ## Cleanups and other writers -/

/-- `FOR UPDATE OF capacity SKIP LOCKED`: a cleanup locks a shard that has expired rows and is free. -/
def lockShard (w : World) (i : ℕ) (shard : CapacityShard) (session : Session) : Option Session :=
  match session.program with
  | .cleanup maximumRows shards (.shardLocks sample) =>
    if hasExpired (GcraStore.tables w.committed) sample shard ∧ w.free i (.ledger shard) then
      some { session with
        txn := session.txn.lock ∅ {shard} w.committed
        program := .cleanup maximumRows (shards ++ [shard]) (.shardLocks sample) }
    else none
  | _ => none

/-- `CLEANUP_ADVANCE_TIME`. -/
def advanceTime (w : World) (i sample : ℕ) (session : Session) : Option Session :=
  match session.program with
  | .cleanup maximumRows shards (.shardLocks _) =>
    if ∀ shard ∈ shards, w.free i (.ledger shard) then
      some { session with
        txn := session.txn.write ∅ shards.toFinset (cleanupAdvanceTime sample shards (view w session)).store
        program := .cleanup maximumRows shards .deleting }
    else none
  | _ => none

/-- A `DELETE` with its trigger, which waits for the rows and their shards. -/
def deleting (w : World) (i : ℕ) (keys : List CounterKey) (session : Session) (program : Program) : Option Session :=
  if ∀ key ∈ keys, w.free i (.row key) ∧ w.free i (.ledger (capacityShard key)) then
    match keys.foldlM deleteRow (view w session) with
    | .ok tables =>
      some { session with
        txn := session.txn.write keys.toFinset (keys.map capacityShard).toFinset tables.store
        program }
    | .error _ => none
  else none

/-- `CLEANUP_DELETE`, of expired rows of the locked shards, or the `DELETE` of another writer. -/
def runDelete (w : World) (i : ℕ) (keys : List CounterKey) (session : Session) : Option Session :=
  match session.program with
  | .cleanup maximumRows shards .deleting =>
    if keys.length ≤ maximumRows ∧ ∀ key ∈ keys, ∃ shard ∈ shards, expiredIn (view w session) shard key = true then
      deleting w i keys session (.cleanup maximumRows shards .deleted)
    else none
  | .other inserted => deleting w i keys session (.other inserted)
  | _ => none

/-- An `INSERT .. ON CONFLICT DO UPDATE` of another writer, which waits for the rows and their shards. -/
def runInsert (w : World) (i : ℕ) (rows : List (CounterKey × GcraRow)) (session : Session) : Option Session :=
  match session.program with
  | .other inserted =>
    if ∀ entry ∈ rows, w.free i (.row entry.1) ∧ w.free i (.ledger (capacityShard entry.1)) then
      match rows.foldlM upsertRow (view w session) with
      | .ok tables =>
        some { session with
          txn := session.txn.write (rows.map Prod.fst).toFinset (rows.map fun entry => capacityShard entry.1).toFinset
            tables.store
          program := .other (inserted ++ rows.map Prod.fst) }
      | .error _ => none
    else none
  | _ => none

/-! ## Runs -/

/-- What a session does next. -/
inductive Statement where
  | advance (sample : ℕ)
  | lock (shard : CapacityShard)
  | advanceTime (sample : ℕ)
  | delete (keys : List CounterKey)
  | insert (rows : List (CounterKey × GcraRow))

inductive Start where
  | admission (config : PostgresConfig) (request : Request GcraPolicy)
  | cleanup (maximumRows sample : ℕ)
  | other

/-- What a commit shows. -/
inductive Report where
  | admitted (config : PostgresConfig) (request : Request GcraPolicy) (response : PgResponse)
  | cleaned
  | changed (inserted : List CounterKey)

/-- `validate_batch`, which an admission passes before it takes a connection. -/
def accepts (config : PostgresConfig) : Request GcraPolicy → Bool
  | .check _ => true
  | .checkAll checks => decide (validateBatch checks config.maxBatchSize = .ok ())

def opens (_ : World) : Start → Option Program
  | .admission config request =>
    if accepts config request then some (.admission config request (.shardLocks (lockedShards request.checks)))
    else none
  | .cleanup maximumRows sample => some (.cleanup maximumRows [] (.shardLocks sample))
  | .other => some (.other [])

def execute (w : World) (i _ : ℕ) (session : Session) : Statement → Option Session
  | .advance sample =>
    match session.program with
    | .admission config request phase => advanceAdmission w i sample session config request phase
    | _ => none
  | .lock shard => lockShard w i shard session
  | .advanceTime sample => advanceTime w i sample session
  | .delete keys => runDelete w i keys session
  | .insert rows => runInsert w i rows session

/-- What a commit reports; a denied admission is rolled back. -/
def report (session : Session) : Option Report :=
  match session.program with
  | .admission config request (.allowed response) => some (.admitted config request response)
  | .cleanup _ _ .deleted => some .cleaned
  | .other inserted => some (.changed inserted)
  | _ => none

/-- The sessions of the durable GCRA limiter. -/
def programs : Ledger.Programs CounterKey GcraRow CapacityShard LedgerRow Empty Program Start Statement Report where
  opens
  execute
  reported := report

abbrev Move := Ledger.Move Start Statement

/-- The database after some moves. -/
def interleaved (moves : List Move) : World := Ledger.interleaved programs migrated.store moves

end Sessions

end PgGcra

end Runlimit
