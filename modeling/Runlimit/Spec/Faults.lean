import Runlimit.Fallible.Triple
import Runlimit.Spec.PgWindows
import Runlimit.Spec.PgGcra

/-!
# Durable checks under faults

The phases of a check against PostgreSQL, with a fault at any of them. Each awaited call, each look at the
deadline and each decoding of a response meets the next of the faults to come; the commit and the
rollback have their own. A commit that is not acknowledged may have taken effect or not. A transaction that
does not commit is rolled back, whether its connection is reused or closed, and leaves nothing.

The transaction holds its locks and works on the tables it found when it began. A response that the
schema cannot give (a null count, an index out of range) is a malformed one.
-/

namespace Runlimit

open Fallible

/-- Whether a connection goes back to the pool. -/
inductive ConnectionOutcome (α : Type) where
  | reusable (value : α)
  | mustClose (value : α)

/-- The value, without what becomes of the connection. -/
def ConnectionOutcome.value {α : Type} : ConnectionOutcome α → α
  | .reusable value => value
  | .mustClose value => value

inductive Fault where
  | none
  | databaseError
  | serverTimeout
  /-- The client's deadline has passed. -/
  | deadline
  /-- A column of the response cannot be decoded, or has a value that no row can have. -/
  | malformed (column : ℕ)
  deriving DecidableEq

inductive CommitFate where
  | acknowledged
  | failed (tookEffect : Bool)
  | timedOut (tookEffect : Bool)

/-- What befalls the phases of a check. -/
structure Faults where
  points : ℕ → Fault
  commit : CommitFate
  rollback : Fault

/-- A connection, with what its transaction sees and what the database has committed. -/
structure Connection (T : Type) where
  coming : ℕ → Fault
  tables : T
  committed : T
  tookEffect : Bool
  acknowledged : Bool

/-- `Result<α, ConnectionOutcome<CheckError>>`, of a connection. -/
abbrev Transact (T α : Type) := Op (Connection T) (ConnectionOutcome PgCheckError) α

namespace Transact

variable {T α D : Type}

/-- The fault of the next point. -/
def nextFault : Transact T Fault := do
  let connection ← get
  modify fun connection => { connection with coming := fun n => connection.coming (n + 1) }
  return connection.coming 0

/-- `map_check_database_error`. -/
def mapCheckDatabaseError (serverTimeout : Bool) (phase : CheckPhase) : PgCheckError :=
  if serverTimeout then .timedOutBeforeCommit phase else .definitelyNotConsumed

/-- `reusable_check_error`. -/
def orReusable (result : Except PgCheckError α) : Transact T α :=
  match result with
  | .ok value => return value
  | .error error => throw (.reusable error)

/-- `check_before_commit`: a call is awaited, and may change what the transaction sees. -/
def checkBeforeCommit (phase : CheckPhase) (call : T → Except PgCheckError (α × T)) : Transact T α := do
  match ← nextFault with
  | .deadline => throw (.mustClose (.timedOutBeforeCommit phase))
  | .serverTimeout => throw (.reusable (mapCheckDatabaseError true phase))
  | .databaseError => throw (.reusable (mapCheckDatabaseError false phase))
  | _ => do
    let (value, tables) ← orReusable (call (← get).tables)
    modify fun connection => { connection with tables }
    return value

/-- `set_check_server_timeouts`. -/
def setCheckServerTimeouts (phase : CheckPhase) : Transact T Unit := do
  if (← nextFault) = .deadline then throw (.reusable (.timedOutBeforeCommit phase))
  else checkBeforeCommit phase fun tables => .ok ((), tables)

/-- `CheckTransaction::begin`. -/
def start : Transact T Unit := do
  let connection ← get
  checkBeforeCommit .beginningTransaction fun _ => .ok ((), connection.committed)

/-- `execute`, `fetch_all` and `fetch_one`: the timeouts are set before every statement. -/
def statement (phase : CheckPhase) (call : T → Except PgCheckError (α × T)) : Transact T α := do
  setCheckServerTimeouts phase
  checkBeforeCommit phase call

/-- A statement that changes no row. -/
def query (phase : CheckPhase) : Transact T T := statement phase fun tables => .ok (tables, tables)

/-- The decoding of a response, with what is said of each malformed column. -/
def decoding (details : List String) : Transact T Unit := do
  match ← nextFault with
  | .malformed column =>
    match details[column]? with
    | some detail => throw (.reusable (.storageInvariant detail))
    | none => return ()
  | _ => return ()

/-- What the transaction sees is committed. -/
def takeEffect (acknowledged : Bool) : Transact T Unit :=
  modify fun connection => { connection with committed := connection.tables, tookEffect := true, acknowledged }

/-- `commit_check`. -/
def commitCheck (fate : CommitFate) : Transact T Unit := do
  if (← nextFault) = .deadline then throw (.reusable (.timedOutBeforeCommit .startingCommit))
  else match fate with
    | .acknowledged => takeEffect true
    | .failed tookEffect => do
      if tookEffect then takeEffect false
      throw (.reusable .commitOutcomeUnknown)
    | .timedOut tookEffect => do
      if tookEffect then takeEffect false
      throw (.mustClose .commitTimedOut)

/-- `CheckTransaction::commit`. -/
def commit (fate : CommitFate) : Transact T Unit := do
  setCheckServerTimeouts .preparingCommit
  commitCheck fate

/-- `finish_denied_transaction`: a failed rollback costs the connection, and not the decision. -/
def finishDeniedTransaction (rollback : Fault) (decision : D) : ConnectionOutcome D :=
  if rollback = .none then .reusable decision else .mustClose decision

end Transact

/-- `acquire_check_connection`. -/
def acquireCheckConnection : Fault → Except PgCheckError Unit
  | .deadline => .error (.timedOutBeforeCommit .acquiringConnection)
  | .databaseError => .error .definitelyNotConsumed
  | .serverTimeout => .error .definitelyNotConsumed
  | _ => .ok ()

/-- What a call gives its caller, and what it leaves in the database. -/
structure Ran (R T : Type) where
  response : R
  committed : T
  tookEffect : Bool
  acknowledged : Bool

/-- `ConnectionCancellationGuard::finish`, of the end of a transaction. -/
def finish {D : Type} : Except (ConnectionOutcome PgCheckError) (ConnectionOutcome D) → Except PgCheckError D
  | .ok outcome => .ok outcome.value
  | .error outcome => .error outcome.value

/-- `run_checks`: a connection is taken from the pool, and one transaction is run on it. -/
def runFaulty {D T : Type} (faults : Faults) (transaction : Transact T (ConnectionOutcome D)) (tables : T) :
    Ran (Except PgCheckError D) T :=
  match acquireCheckConnection (faults.points 0) with
  | .error error => ⟨.error error, tables, false, false⟩
  | .ok () =>
    let (result, connection) := exec transaction ⟨fun n => faults.points (n + 1), tables, tables, false, false⟩
    ⟨finish result, connection.committed, connection.tookEffect, connection.acknowledged⟩

def Ran.map {R S T : Type} (f : R → S) (ran : Ran R T) : Ran S T :=
  ⟨f ran.response, ran.committed, ran.tookEffect, ran.acknowledged⟩

/-- `check` or `check_all`, of a limiter that runs its checks so. -/
def tryAdmitFaulty {P T : Type} [RateLimitPolicy P] (config : PostgresConfig)
    (run : {D : Type} → List (Check P) → (Admission → Except PgCheckError D) → Ran (Except PgCheckError D) T)
    (request : Request P) (tables : T) : Ran PgResponse T :=
  match request with
  | .check c => (run [c] singleDecision).map .check
  | .checkAll checks =>
    match validateBatch checks config.maxBatchSize with
    | .error error => ⟨.checkAll (.error (.invalidBatch error)), tables, false, false⟩
    | .ok () => (run checks (batchDecision checks.length)).map fun result => .checkAll (result.mapError .check)

/-- A check was denied, or would have been. -/
def PgResponse.denied : PgResponse → Bool
  | .check (.ok (.denied _)) => true
  | .check (.ok (.shadowDenied _)) => true
  | .checkAll (.ok ⟨.denied _ _ _⟩) => true
  | .checkAll (.ok ⟨.shadowDenied _ _ _⟩) => true
  | _ => false

/-- What an error says about consumption. -/
def PgResponse.consumption : PgResponse → Option ConsumptionStatus
  | .check (.error error) => some error.consumption
  | .checkAll (.error error) => some error.consumption
  | _ => none

/-! ## Fixed windows -/

namespace PgWindows

open Transact

variable [Sha2]

/-- What `preflight_batch` makes of the row it fetched. -/
def readDenial (checks : List (Check FixedWindowPolicy)) (databaseNow : ℕ) :
    Option (ℕ × ℕ) → Except PgCheckError (Option (ℕ × PendingDenial))
  | none => .ok none
  | some (index, expiresAt) =>
    match checks[index]? with
    | none => invariant "batch preflight returned an out-of-range input index"
    | some check => do return some (index, .quota ⟨check.policy.limit, ← durationUntil expiresAt databaseNow⟩)

/-- What `upsert_batch` makes of the rows it fetched. -/
def readAllowances (checks : List (Check FixedWindowPolicy)) (databaseNow : ℕ)
    (rows : List (ℕ × CounterKey × WindowRow)) : Except PgCheckError (List PendingAllowance) :=
  if rows.isEmpty then invariant "allowed batch update returned no decisions"
  else do
    let allowances ← readUpserted checks databaseNow 0 rows
    if allowances.length ≠ checks.length then invariant "allowed batch returned an incomplete decision set"
    else return allowances

/-- `first_capacity_denial`. -/
def capacityDenialPhase (config : PostgresConfig) (checks : List (Check FixedWindowPolicy)) :
    Transact WindowTables (Option (ℕ × PendingDenial)) := do
  let tables ← query .acquiringCapacityShardLocks
  decoding ["capacity preflight returned an undecodable input index",
    "capacity preflight returned an invalid input index", "capacity preflight returned an undecodable shard",
    "capacity preflight returned a negative shard", "capacity preflight returned an out-of-range shard",
    "capacity preflight returned an undecodable ledger count", "capacity shard ledger row is missing",
    "capacity shard ledger count is negative", "capacity shard ledger count overflowed"]
  orReusable (firstCapacityDenial (checks.map fun check => capacityShard check.counterKey)
    config.maximumRowsPerShard (fun _ => 0) (capacityRows (missingKeys tables checks) tables.rowCounts))

/-- `preflight_batch`. -/
def preflightPhase (samples : Samples) (checks : List (Check FixedWindowPolicy)) :
    Transact WindowTables (Option (ℕ × PendingDenial)) := do
  let tables ← query .preflightingCounters
  decoding ["batch preflight returned an undecodable database time",
    "batch preflight returned an undecodable response time", "batch preflight returned an undecodable denial index",
    "batch preflight returned an undecodable denial expiry", "batch preflight returned an invalid input index",
    "batch preflight returned an incomplete denial"]
  orReusable (readDenial checks samples.databaseNow (firstDenialRow tables samples.databaseNow 0 checks))

/-- `upsert_batch`. -/
def upsertPhase (samples : Samples) (checks : List (Check FixedWindowPolicy)) :
    Transact WindowTables (List PendingAllowance) := do
  let tables ← statement .updatingCounters fun tables => do
    let writes ← upsert tables samples.databaseNow checks
    return (tables, writes.apply tables)
  decoding ["batch update returned an undecodable response time", "batch update returned an undecodable input index",
    "batch evaluation returned an invalid input index", "batch update returned undecodable expiry",
    "batch update returned undecodable usage", "stored usage is negative"]
  orReusable (readAllowances checks samples.databaseNow (upsertedRows tables samples.databaseNow checks))

/-- `execute_batch`. -/
def executeBatchPhases (config : PostgresConfig) (samples : Samples) (checks : List (Check FixedWindowPolicy)) :
    Transact WindowTables (PendingBatchOutcome × Duration) := do
  let capacityDenial ← capacityDenialPhase config checks
  let quotaDenial ← preflightPhase samples checks
  match firstOf capacityDenial quotaDenial with
  | some (index, denial) =>
    return (.denied index denial, authoritativeElapsed samples.databaseNow samples.preflightResponse)
  | none =>
    let allowances ← upsertPhase samples checks
    return (.allowed allowances, authoritativeElapsed samples.databaseNow samples.upsertResponse)

/-- The phases of `run_check_transaction_inner` up to its decision: it is built before the end of the transaction. -/
def decidePhases {D : Type} (config : PostgresConfig) (samples : Samples) (checks : List (Check FixedWindowPolicy))
    (build : Admission → Except PgCheckError D) : Transact WindowTables (D × PendingBatchOutcome) := do
  start
  let _ ← query .acquiringLogicalKeyLocks
  let _ ← query .acquiringCounterRowLocks
  let (pending, elapsed) ← executeBatchPhases config samples checks
  return (← orReusable (build (admissionOf checks elapsed pending)), pending)

/-- `run_check_transaction_inner`. -/
def runCheckTransaction {D : Type} (faults : Faults) (config : PostgresConfig) (samples : Samples)
    (checks : List (Check FixedWindowPolicy)) (build : Admission → Except PgCheckError D) :
    Transact WindowTables (ConnectionOutcome D) := do
  match ← decidePhases config samples checks build with
  | (decision, .denied _ _) => return finishDeniedTransaction faults.rollback decision
  | (decision, .allowed _) => do
    commit faults.commit
    return .reusable decision

/-- `PostgresLimiter::check` and `PostgresLimiter::check_all`. -/
def tryAdmitUnder (faults : Faults) (config : PostgresConfig) (samples : Samples)
    (request : Request FixedWindowPolicy) (tables : WindowTables) : Ran PgResponse WindowTables :=
  tryAdmitFaulty config (fun checks build => runFaulty faults (runCheckTransaction faults config samples checks build) tables)
    request tables

end PgWindows

/-! ## GCRA -/

namespace PgGcra

open Transact

variable [Sha2]

/-- The phases of `run_transaction` up to its evaluation: the time it decides at, and what it found. -/
def evaluatePhases (config : PostgresConfig) (sample : ℕ) (checks : List (Check GcraPolicy)) :
    Transact GcraTables (ℕ × Pending) := do
  let ledger ← query .acquiringCapacityShardLocks
  decoding ["GCRA capacity ledger is missing a shard"]
  let _ ← query .preflightingCounters
  decoding ["invalid GCRA database response", "invalid GCRA capacity ledger", "negative GCRA database time"]
  let shards := lockedShards checks
  let now ← orReusable (readLedger ledger shards sample)
  let tables ← query .preflightingCounters
  decoding ["invalid GCRA database response", "GCRA preflight count disagrees with the batch",
    "GCRA preflight changed input order", "inconsistent GCRA stored counter"]
  let counts shard := if shard ∈ shards then (ledger.shards shard).rowCount else 0
  let rows := checks.map fun check => tables.rows.lookup check.counterKey
  let pending ← orReusable (evaluate checks rows counts config.maximumRowsPerShard now)
  return (now, pending)

/-- `run_transaction`. -/
def runTransactionUnder {D : Type} (faults : Faults) (config : PostgresConfig) (sample : ℕ)
    (checks : List (Check GcraPolicy)) (build : Admission → Except PgCheckError D) :
    Transact GcraTables (ConnectionOutcome D) := do
  start
  let (now, pending) ← evaluatePhases config sample checks
  match pending with
  | .denied admission => do
    let decision ← orReusable (build admission)
    return finishDeniedTransaction faults.rollback decision
  | .allowed allowances => do
    let entries ← orReusable (upsertRows checks allowances)
    let decision ← orReusable (build (.allowed (allowances.map (·.allowance))))
    statement .updatingCounters fun tables => do return ((), ← entries.foldlM upsertRow tables)
    if entries.length ≠ checks.length then
      throw (.reusable (.storageInvariant "GCRA upsert count disagrees with the batch"))
    else do
      statement .updatingCounters fun tables => .ok ((), setObserved (lockedShards checks) now tables)
      commit faults.commit
      return .reusable decision

/-- `PostgresGcraLimiter::check` and `PostgresGcraLimiter::check_all`. -/
def tryAdmitUnder (faults : Faults) (config : PostgresConfig) (sample : ℕ) (request : Request GcraPolicy)
    (tables : GcraTables) : Ran PgResponse GcraTables :=
  tryAdmitFaulty config (fun checks build => runFaulty faults (runTransactionUnder faults config sample checks build) tables)
    request tables

end PgGcra

end Runlimit
