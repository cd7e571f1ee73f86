import Runlimit.Spec.Run

/-!
# What the PostgreSQL limiters share

Both durable limiters spread their keys over the same 256 capacity shards, shape the outcome of
a transaction into the same decisions and classify their failures alike. The payload of a driver
error (`sqlx::Error`) is left out: nothing here reads it.
-/

namespace Runlimit

/-! ## The storage protocol -/

/-- `CAPACITY_SHARD_COUNT`. -/
def capacityShardCount : ℕ := 256

/-- The ledgers hold one row for each of these, inserted by the migration. -/
abbrev CapacityShard := Fin capacityShardCount

instance : LawfulBEq CapacityShard := inferInstance

/-- `HARD_MAX_ROWS_PER_SHARD`, also the `CHECK` of the ledgers. -/
def hardMaxRowsPerShard : ℕ := 65536

/-- `i64::MAX`, the greatest `BIGINT`. -/
def i64Max : ℕ := 2 ^ 63 - 1

/-- `as_bytes()[0]` of 32 bytes. -/
def Digest.firstByte (digest : Digest) : UInt8 :=
  digest.bytes.get ⟨0, by rw [digest.length_eq]; decide⟩

/-- `protocol::capacity_shard`, and the generated column of the same name. -/
def capacityShard (key : CounterKey) : CapacityShard :=
  ⟨(key.fingerprint.firstByte ^^^ key.subject.firstByte).toNat, UInt8.toNat_lt _⟩

structure PostgresConfig where
  maximumRowsPerShard : ℕ
  maxBatchSize : ℕ
  rows_pos : 0 < maximumRowsPerShard
  rows_le : maximumRowsPerShard ≤ hardMaxRowsPerShard
  batch_pos : 0 < maxBatchSize

/-- `PostgresConfig::new`. -/
def PostgresConfig.new : PostgresConfig := ⟨4096, 32, by decide, by decide, MemoryStoreConfig.defaultBatch_pos⟩

/-- A row of a capacity ledger. -/
@[ext]
structure LedgerRow where
  rowCount : ℕ
  observedAtMs : ℕ
  deriving DecidableEq, Repr

/-! ## Failures -/

/-- The database phase a quota check was in. -/
inductive CheckPhase where
  | acquiringConnection
  | beginningTransaction
  | acquiringLogicalKeyLocks
  | acquiringCounterRowLocks
  | acquiringCapacityShardLocks
  | preflightingCounters
  | updatingCounters
  | preparingCommit
  | startingCommit
  deriving DecidableEq, Repr

/-- `runlimit_postgres::CheckError`. -/
inductive PgCheckError where
  | definitelyNotConsumed
  | commitOutcomeUnknown
  | timedOutBeforeCommit (phase : CheckPhase)
  | commitTimedOut
  | storageInvariant (detail : String)
  deriving DecidableEq, Repr

/-- `CheckError::storage_invariant`. -/
def invariant {α : Type} (detail : String) : Except PgCheckError α := .error (.storageInvariant detail)

/-- `runlimit_postgres::BatchCheckError`. -/
inductive PgBatchCheckError where
  | invalidBatch (error : BatchError)
  | check (error : PgCheckError)
  deriving DecidableEq, Repr

/-- What is known about quota consumption after a failure. -/
inductive ConsumptionStatus where
  | notConsumed
  | possiblyConsumed
  deriving DecidableEq, Repr

def PgCheckError.consumption : PgCheckError → ConsumptionStatus
  | .commitOutcomeUnknown => .possiblyConsumed
  | .commitTimedOut => .possiblyConsumed
  | .definitelyNotConsumed => .notConsumed
  | .timedOutBeforeCommit _ => .notConsumed
  | .storageInvariant _ => .notConsumed

def PgBatchCheckError.consumption : PgBatchCheckError → ConsumptionStatus
  | .invalidBatch _ => .notConsumed
  | .check error => error.consumption

/-- `MaintenanceError`, as far as a cleanup without a fault can fail. -/
inductive MaintenanceError where
  | database
  deriving DecidableEq, Repr

/-! ## Decisions -/

/-- The finalized outcome of one transaction. -/
inductive Admission where
  | allowed (allowances : List Allowance)
  | denied (index : ℕ) (denial : Denial)
  | shadowDenied (index : ℕ) (denial : QuotaDenial)
  deriving DecidableEq

/-- The admission for an exceeded quota: only a shadow policy lets the request through. -/
def quotaAdmission (mode : QuotaMode) (index : ℕ) (denial : QuotaDenial) : Admission :=
  if mode = .shadow then .shadowDenied index denial else .denied index (.quotaExceeded denial)

def singleDecision : Admission → Except PgCheckError Decision
  | .allowed [allowance] => .ok (.allowed allowance)
  | .allowed _ =>
    .error (.storageInvariant "single check returned a different number of allowances")
  | .denied 0 denial => .ok (.denied denial)
  | .shadowDenied 0 denial => .ok (.shadowDenied denial)
  | .denied _ _ =>
    .error (.storageInvariant "single check denied an input other than its only check")
  | .shadowDenied _ _ =>
    .error (.storageInvariant "single check denied an input other than its only check")

/-- `result.map_err(|_| ..)` at the end of `batch_decision`. -/
def orMismatch (result : Except DecisionError BatchDecision) : Except PgCheckError BatchDecision :=
  result.mapError fun _ => .storageInvariant "batch decision did not match the submitted batch"

def batchDecision (batchSize : ℕ) : Admission → Except PgCheckError BatchDecision
  | .allowed allowances =>
    if allowances.length ≠ batchSize then
      .error (.storageInvariant
        "allowed batch returned a different number of allowances than submitted checks")
    else orMismatch (BatchDecision.allowed allowances)
  | .denied index denial => orMismatch (BatchDecision.denied index batchSize denial)
  | .shadowDenied index denial => orMismatch (BatchDecision.shadowDenied index batchSize denial)

/-- What a call to a PostgreSQL limiter gives its caller. -/
inductive PgResponse where
  | check (result : Except PgCheckError Decision)
  | checkAll (result : Except PgBatchCheckError BatchDecision)
  deriving DecidableEq

/-- Every check was allowed, which is returned only after the commit. -/
def PgResponse.allowed : PgResponse → Bool
  | .check (.ok (.allowed _)) => true
  | .checkAll (.ok ⟨.allowed _⟩) => true
  | _ => false

end Runlimit
