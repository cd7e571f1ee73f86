import Runlimit.Spec.Postgres

/-!
# The durable fixed windows

`PostgresLimiter` decides a batch with three queries and a merge of their answers in Rust: the
capacity preflight over the inputs without a row, the quota preflight over those with an active one,
and, where neither denies, one upsert of the whole batch. A transaction holds the locks of its
keys and shards while it does so, and here it runs alone; what the locks are for is the matter of
`Spec.Sessions`.

A `TIMESTAMPTZ` counts microseconds, here from the earliest one, and `sqlx` opens its sessions in
UTC, where an interval of days is exact. The `CHECK`s of the schema make counts and usage natural
numbers. `policy_id` and `scope_id` are written and never read: they are left out.
-/

namespace Runlimit

/-- A row of `runlimit_fixed_windows`. -/
@[ext]
structure WindowRow where
  startedAt : ℕ
  expiresAt : ℕ
  used : ℕ
  deriving DecidableEq, Repr

/-- `runlimit_capacity_shards` and `runlimit_fixed_windows`. -/
@[ext]
structure WindowTables where
  rowCounts : CapacityShard → ℕ
  rows : Table CounterKey WindowRow

/-- A span of timestamps, by `TimeDelta::to_std`. -/
def Duration.ofMicros (micros : ℕ) : Duration := ⟨min (micros * 10 ^ 3) maxNanos, min_le_right _ _⟩

namespace PgWindows

/-- The tables after the migrations. -/
def migrated : WindowTables := ⟨fun _ => 0, ∅⟩

/-- The tuple versions a transaction has written. -/
structure Writes where
  rows : List (CounterKey × WindowRow)
  rowCounts : List (CapacityShard × ℕ)
  deriving DecidableEq

/-- A commit makes them the current ones. -/
def Writes.apply (writes : Writes) (tables : WindowTables) : WindowTables where
  rowCounts := writes.rowCounts.foldl (fun counts entry => Function.update counts entry.1 entry.2) tables.rowCounts
  rows := writes.rows.foldl (fun rows entry => rows.insert entry.1 entry.2) tables.rows

/-! ## What is decided before it is reported -/

structure PendingAllowance where
  allowance : Allowance
  deriving DecidableEq

/-- `PendingAllowance::new`. -/
def PendingAllowance.new (limit : Capacity) (used : ℕ) (resetFromSample : Duration) :
    Except PgCheckError PendingAllowance :=
  if limit.get < used then invariant "stored usage exceeds its policy limit"
  else match Allowance.new limit (limit.get - used) resetFromSample with
    | .error _ => invariant "stored usage exceeds its policy limit"
    | .ok allowance => .ok ⟨allowance⟩

/-- `PendingAllowance::finish`. -/
def PendingAllowance.finish (pending : PendingAllowance) (elapsed : Duration) : Allowance :=
  { pending.allowance with
    replenishesAfter := ⟨pending.allowance.replenishesAfter.duration.saturatingSub elapsed⟩ }

structure PendingQuotaDenial where
  limit : Capacity
  retryFromSample : Duration
  deriving DecidableEq

/-- `PendingQuotaDenial::finish`. -/
def PendingQuotaDenial.finish (denial : PendingQuotaDenial) (elapsed : Duration) : QuotaDenial :=
  .new denial.limit (denial.retryFromSample.saturatingSub elapsed)

inductive PendingDenial where
  | quota (denial : PendingQuotaDenial)
  | storageCapacity
  deriving DecidableEq

inductive PendingBatchOutcome where
  | allowed (allowances : List PendingAllowance)
  | denied (index : ℕ) (denial : PendingDenial)
  deriving DecidableEq

/-- `authoritative_elapsed`. -/
def authoritativeElapsed (start finish : ℕ) : Duration := .ofMicros (finish - start)

/-- `duration_until`. -/
def durationUntil (expiresAt databaseNow : ℕ) : Except PgCheckError Duration :=
  if expiresAt < databaseNow then invariant "stored window is already expired"
  else .ok (.ofMicros (expiresAt - databaseNow))

section Statements

variable [Sha2]

/-! ## The capacity preflight -/

/-- `missing_keys`: the inputs without a row, in input order. -/
def missingKeys (tables : WindowTables) (checks : List (Check FixedWindowPolicy)) : List (ℕ × CapacityShard) :=
  checks.zipIdx.filterMap fun p =>
    if (tables.rows.lookup p.1.counterKey).isNone then some (p.2, capacityShard p.1.counterKey) else none

/-- A row of `BATCH_CAPACITY_LOCK_SQL`. -/
structure CapacityRow where
  inputIndex : ℕ
  capacityShard : CapacityShard
  rowCount : ℕ

/-- The rows of `BATCH_CAPACITY_LOCK_SQL`: each missing key with the count of its locked shard. -/
def capacityRows (missing : List (ℕ × CapacityShard)) (rowCounts : CapacityShard → ℕ) : List CapacityRow :=
  missing.map fun p => ⟨p.1, p.2, rowCounts p.2⟩

/-- The loop of `first_capacity_denial`; `pending` is `pending_insertions`. A `BIGINT` and a `u32` do
not overflow the `u64` of `projected_rows`. -/
def firstCapacityDenial (shards : List CapacityShard) (maximum : ℕ) :
    (CapacityShard → ℕ) → List CapacityRow → Except PgCheckError (Option (ℕ × PendingDenial))
  | _, [] => .ok none
  | pending, row :: rest =>
    match shards[row.inputIndex]? with
    | none => invariant "capacity preflight returned an out-of-range input index"
    | some expected =>
      if row.capacityShard ≠ expected then invariant "capacity preflight returned a mismatched shard"
      else if maximum < row.rowCount + pending row.capacityShard + 1 then
        .ok (some (row.inputIndex, .storageCapacity))
      else firstCapacityDenial shards maximum
        (Function.update pending row.capacityShard (pending row.capacityShard + 1)) rest

/-! ## The quota preflight -/

/-- `first_denial` of `BATCH_PREFLIGHT_SQL`: the index and the expiry of the first input whose active row
has no room for its cost. -/
def firstDenialRow (tables : WindowTables) (databaseNow : ℕ) : ℕ → List (Check FixedWindowPolicy) → Option (ℕ × ℕ)
  | _, [] => none
  | index, check :: rest =>
    match tables.rows.lookup check.counterKey with
    | none => firstDenialRow tables databaseNow (index + 1) rest
    | some row =>
      if databaseNow < row.expiresAt ∧ check.policy.limit.get - check.cost < row.used then some (index, row.expiresAt)
      else firstDenialRow tables databaseNow (index + 1) rest

/-- `preflight_batch`, at the time it sampled. -/
def preflightBatch (tables : WindowTables) (databaseNow : ℕ) (checks : List (Check FixedWindowPolicy)) :
    Except PgCheckError (Option (ℕ × PendingDenial)) :=
  match firstDenialRow tables databaseNow 0 checks with
  | none => .ok none
  | some (index, expiresAt) =>
    match checks[index]? with
    | none => invariant "batch preflight returned an out-of-range input index"
    | some check => do return some (index, .quota ⟨check.policy.limit, ← durationUntil expiresAt databaseNow⟩)

/-- The merge in `execute_batch`: the denial with the smaller index. -/
def firstOf : Option (ℕ × PendingDenial) → Option (ℕ × PendingDenial) → Option (ℕ × PendingDenial)
  | some capacity, some quota => some (if capacity.1 < quota.1 then capacity else quota)
  | some capacity, none => some capacity
  | none, some quota => some quota
  | none, none => none

/-! ## The upsert -/

/-- The policy's window, in microseconds. -/
def windowMicros (check : Check FixedWindowPolicy) : ℕ := 1000 * check.policy.window.millis

/-- What `BATCH_UPSERT_SQL` makes of the row of one input. It inserts, it restarts an expired window
at the sample, it adds to an active one, or its `WHERE` leaves the row alone. -/
def upserted (databaseNow : ℕ) (check : Check FixedWindowPolicy) : Option WindowRow → Option WindowRow
  | none => some ⟨databaseNow, databaseNow + windowMicros check, check.cost⟩
  | some row =>
    if row.expiresAt ≤ databaseNow then some ⟨databaseNow, databaseNow + windowMicros check, check.cost⟩
    else if row.used ≤ check.policy.limit.get - check.cost then
      some { row with used := row.used + check.cost }
    else none

/-- The rows `BATCH_UPSERT_SQL` stores, with the index of their input. The inputs have different keys,
so that each finds its row as the statement found it. -/
def upsertedRows (tables : WindowTables) (databaseNow : ℕ) (checks : List (Check FixedWindowPolicy)) :
    List (ℕ × CounterKey × WindowRow) :=
  checks.zipIdx.filterMap fun p =>
    (upserted databaseNow p.1 (tables.rows.lookup p.1.counterKey)).map fun row => (p.2, p.1.counterKey, row)

/-- The loop of `runlimit_fixed_windows_capacity_after_insert`, over the shards of the inserted rows. -/
def capacityAfterInsert (rowCounts : CapacityShard → ℕ) (inserted : List CounterKey) :
    Except PgCheckError (List (CapacityShard × ℕ)) :=
  let shards := inserted.map capacityShard
  (shards.insertionSort (· ≤ ·)).dedup.mapM fun shard =>
    if hardMaxRowsPerShard < rowCounts shard + shards.count shard then .error .definitelyNotConsumed
    else .ok (shard, rowCounts shard + shards.count shard)

/-- `BATCH_UPSERT_SQL` with its trigger: what it writes. -/
def upsert (tables : WindowTables) (databaseNow : ℕ) (checks : List (Check FixedWindowPolicy)) :
    Except PgCheckError Writes := do
  let rows := upsertedRows tables databaseNow checks
  let inserted := (rows.map (·.2.1)).filter fun key => (tables.rows.lookup key).isNone
  return ⟨rows.map (·.2), ← capacityAfterInsert tables.rowCounts inserted⟩

/-- The loop of `upsert_batch` over the returned rows. -/
def readUpserted (checks : List (Check FixedWindowPolicy)) (databaseNow : ℕ) :
    ℕ → List (ℕ × CounterKey × WindowRow) → Except PgCheckError (List PendingAllowance)
  | _, [] => .ok []
  | position, (index, _, row) :: rest =>
    match checks[index]? with
    | none => invariant "batch evaluation returned an out-of-range input index"
    | some check => do
      let remaining ← durationUntil row.expiresAt databaseNow
      if index ≠ position then invariant "allowed batch decisions were not returned in caller order"
      else
        let allowance ← PendingAllowance.new check.policy.limit row.used remaining
        return allowance :: (← readUpserted checks databaseNow (position + 1) rest)

/-- `upsert_batch`. -/
def upsertBatch (tables : WindowTables) (databaseNow : ℕ) (checks : List (Check FixedWindowPolicy)) :
    Except PgCheckError (List PendingAllowance × Writes) := do
  let writes ← upsert tables databaseNow checks
  let rows := upsertedRows tables databaseNow checks
  if rows.isEmpty then invariant "allowed batch update returned no decisions"
  else
    let allowances ← readUpserted checks databaseNow 0 rows
    if allowances.length ≠ checks.length then invariant "allowed batch returned an incomplete decision set"
    else return (allowances, writes)

/-! ## Admission -/

/-- What `clock_timestamp()` gives in one admission: in the preflight, at the end of the preflight, and
at the end of the upsert. -/
structure Samples where
  databaseNow : ℕ
  preflightResponse : ℕ
  upsertResponse : ℕ

/-- `execute_batch`: the outcome, the time it took, and what was written. -/
def executeBatch (config : PostgresConfig) (samples : Samples) (checks : List (Check FixedWindowPolicy))
    (tables : WindowTables) : Except PgCheckError (PendingBatchOutcome × Duration × Writes) := do
  let capacityDenial ← firstCapacityDenial (checks.map fun check => capacityShard check.counterKey)
    config.maximumRowsPerShard (fun _ => 0) (capacityRows (missingKeys tables checks) tables.rowCounts)
  let quotaDenial ← preflightBatch tables samples.databaseNow checks
  match firstOf capacityDenial quotaDenial with
  | some (index, denial) =>
    return (.denied index denial, authoritativeElapsed samples.databaseNow samples.preflightResponse, ⟨[], []⟩)
  | none =>
    let (allowances, writes) ← upsertBatch tables samples.databaseNow checks
    return (.allowed allowances, authoritativeElapsed samples.databaseNow samples.upsertResponse, writes)

/-- `checks[0].policy().quota_mode()`, which is asked only where a check was denied. -/
def firstQuotaMode : List (Check FixedWindowPolicy) → QuotaMode
  | [] => .enforce
  | check :: _ => check.quotaMode

/-- The admission of a denial, in `run_check_transaction_inner`. -/
def deniedAdmission (mode : QuotaMode) (index : ℕ) (elapsed : Duration) : PendingDenial → Admission
  | .quota denial => quotaAdmission mode index (denial.finish elapsed)
  | .storageCapacity => .denied index (.storageCapacity none)

/-- What a transaction reports of its pending outcome. -/
def admissionOf (checks : List (Check FixedWindowPolicy)) (elapsed : Duration) : PendingBatchOutcome → Admission
  | .denied index denial => deniedAdmission (firstQuotaMode checks) index elapsed denial
  | .allowed allowances => .allowed (allowances.map (·.finish elapsed))

/-- `run_check_transaction_inner`, up to its commit or rollback: the decision, and what it commits. -/
def transact {D : Type} (config : PostgresConfig) (samples : Samples) (checks : List (Check FixedWindowPolicy))
    (build : Admission → Except PgCheckError D) (tables : WindowTables) :
    Except PgCheckError (D × Option WindowTables) := do
  let (pending, elapsed, writes) ← executeBatch config samples checks tables
  let decision ← build (admissionOf checks elapsed pending)
  match pending with
  | .denied _ _ => return (decision, none)
  | .allowed _ => return (decision, some (writes.apply tables))

/-- `run_checks`: without a commit the tables are as they were. -/
def runChecks {D : Type} (config : PostgresConfig) (samples : Samples) (checks : List (Check FixedWindowPolicy))
    (build : Admission → Except PgCheckError D) (tables : WindowTables) : Except PgCheckError D × WindowTables :=
  match transact config samples checks build tables with
  | .error error => (.error error, tables)
  | .ok (decision, none) => (.ok decision, tables)
  | .ok (decision, some committed) => (.ok decision, committed)

/-- `PostgresLimiter::check`. -/
def check (config : PostgresConfig) (samples : Samples) (check : Check FixedWindowPolicy) (tables : WindowTables) :
    Except PgCheckError Decision × WindowTables :=
  runChecks config samples [check] singleDecision tables

/-- `PostgresLimiter::check_all`. -/
def checkAll (config : PostgresConfig) (samples : Samples) (checks : List (Check FixedWindowPolicy))
    (tables : WindowTables) : Except PgBatchCheckError BatchDecision × WindowTables :=
  match validateBatch checks config.maxBatchSize with
  | .error error => (.error (.invalidBatch error), tables)
  | .ok () =>
    let (result, tables) := runChecks config samples checks (batchDecision checks.length) tables
    (result.mapError .check, tables)

end Statements

/-! ## Cleanup -/

/-- What PostgreSQL decides in a cleanup: its clock sample, the rows that are locked by others, and the
order in which it meets the rows. -/
structure CleanupRun where
  maximumRows : ℕ
  sampledAt : ℕ
  locked : Finset CounterKey
  scan : List CounterKey

/-- The row of the key has expired, and is not locked. -/
def expiredAt (run : CleanupRun) (tables : WindowTables) (key : CounterKey) : Bool :=
  match tables.rows.lookup key with
  | none => false
  | some row => decide (row.expiresAt ≤ run.sampledAt ∧ key ∉ run.locked)

/-- The expiry of a stored window. -/
def expiryOf (tables : WindowTables) (key : CounterKey) : ℕ :=
  match tables.rows.lookup key with
  | none => 0
  | some row => row.expiresAt

/-- `expired` of `CLEANUP_SQL`. -/
def cleanupSelect (run : CleanupRun) (tables : WindowTables) : List CounterKey :=
  ((run.scan.dedup.filter (expiredAt run tables)).insertionSort fun a b => expiryOf tables a ≤ expiryOf tables b).take
    run.maximumRows

/-- The loop of `runlimit_fixed_windows_capacity_after_delete`, over the shards of the deleted rows. -/
def capacityAfterDelete (rowCounts : CapacityShard → ℕ) (deleted : List CounterKey) :
    Except MaintenanceError (List (CapacityShard × ℕ)) :=
  let shards := deleted.map capacityShard
  (shards.insertionSort (· ≤ ·)).dedup.mapM fun shard =>
    if rowCounts shard < shards.count shard then .error .database
    else .ok (shard, rowCounts shard - shards.count shard)

/-- `DELETE` of some rows, with its trigger. -/
def deleteRows (deleted : List CounterKey) (tables : WindowTables) : Except MaintenanceError WindowTables := do
  let counts ← capacityAfterDelete tables.rowCounts deleted
  return ⟨counts.foldl (fun counts entry => Function.update counts entry.1 entry.2) tables.rowCounts,
    deleted.foldl (fun rows key => rows.erase key) tables.rows⟩

/-- `PostgresLimiter::cleanup_expired`. -/
def cleanupExpired (run : CleanupRun) (tables : WindowTables) : Except MaintenanceError ℕ × WindowTables :=
  if run.maximumRows = 0 then (.ok 0, tables)
  else
    let deleted := cleanupSelect run tables
    match deleteRows deleted tables with
    | .error error => (.error error, tables)
    | .ok committed => (.ok deleted.length, committed)

/-! ## Runs -/

inductive Command [Sha2] where
  /-- `check` or `check_all`, with the times it samples. -/
  | tryAdmit (samples : Samples) (request : Request FixedWindowPolicy)
  | cleanup (run : CleanupRun)

inductive Event where
  | admission (response : PgResponse)
  | cleanup (result : Except MaintenanceError ℕ)

section Runs

variable [Sha2]

def Command.checks : Command → List (Check FixedWindowPolicy)
  | .tryAdmit _ request => request.checks
  | .cleanup _ => []

def tryAdmit (config : PostgresConfig) (samples : Samples) (request : Request FixedWindowPolicy)
    (tables : WindowTables) : PgResponse × WindowTables :=
  match request with
  | .check c =>
    let (result, tables) := check config samples c tables
    (.check result, tables)
  | .checkAll checks =>
    let (result, tables) := checkAll config samples checks tables
    (.checkAll result, tables)

def perform (config : PostgresConfig) : Command → WindowTables → Event × WindowTables
  | .tryAdmit samples request, tables =>
    let (response, tables') := tryAdmit config samples request tables
    (.admission response, tables')
  | .cleanup run, tables =>
    let (result, tables') := cleanupExpired run tables
    (.cleanup result, tables')

end Runs

end PgWindows

end Runlimit
