import Runlimit.Spec.AttemptRun
import Runlimit.Spec.Postgres

/-!
# The durable attempts

`PostgresAttemptLimiter` keeps one row for each key, in a table whose rows of one shard have
different slots. An admission takes the advisory lock of its shard, deletes rows that have been
quiet, locks the row of its key and decides in Rust; a completion is one statement. Here are the
statements, each as what it does to the rows it finds, and the transactions made of them; what
happens between the statements of different transactions is the matter of `Spec.AttemptSessions`.

The server's clock is at or after the epoch, so that a `BIGINT` of milliseconds is a natural number. A
statement that stores a value outside its column's range or `CHECK` fails. Rows with equal expiry
have no order in PostgreSQL: which it meets first is a choice of the run.
-/

namespace Runlimit

/-- The text of a `gen_random_uuid()`, which is only ever compared. -/
abbrev LeaseToken := ℕ

/-- A row of `runlimit_attempts`; the `CHECK` of the table joins the two columns of the lease. -/
@[ext]
structure AttemptRow where
  capacitySlot : ℕ
  failures : ℕ
  lastFailureMs : ℕ
  retryAtMs : ℕ
  quietMs : ℕ
  /-- `lease_until_ms` and `lease_token`. -/
  lease : Option (ℕ × LeaseToken)
  deriving DecidableEq, Repr

abbrev AttemptRows := Table AttemptKey AttemptRow

structure PgAttemptReceipt where
  policy : AttemptPolicy
  subject : SubjectKey
  token : LeaseToken

/-- The key of the row a receipt is for. -/
def PgAttemptReceipt.key [Sha2] (receipt : PgAttemptReceipt) : AttemptKey :=
  ⟨receipt.policy.fingerprint, receipt.subject⟩

/-- `a.saturating_add(b)` on `i64`, of values that are not negative. -/
def saturatingAddI64 (a b : ℕ) : ℕ := min (a + b) i64Max

namespace AttemptRow

/-- `COALESCE(lease_until_ms, last_failure_ms) + quiet_ms`. -/
def expiryMs (row : AttemptRow) : ℕ := (row.lease.map Prod.fst).getD row.lastFailureMs + row.quietMs

/-- The ranges of the columns, their `CHECK`s, and the range of the indexed expression. -/
def storable (row : AttemptRow) : Bool :=
  decide (row.capacitySlot ≤ 65535) && decide (row.failures ≤ 4294967295) &&
    decide (row.lastFailureMs ≤ i64Max) && decide (row.retryAtMs ≤ i64Max) &&
    decide (1 ≤ row.quietMs) && decide (row.quietMs ≤ 9007199254740) &&
    decide (row.expiryMs ≤ i64Max)

end AttemptRow

namespace PgAttempts

/-- The table after the migration. -/
def migrated : AttemptRows := ∅

/-! ## `attempt_complete.sql` -/

/-- `next_failures`. -/
def nextFailures (success : Bool) (failures : ℕ) : ℕ := if success then 0 else min (failures + 1) 4294967295

/-- `delay_ms`, of which `power` and the product are exact. -/
def delayMs (success : Bool) (initial maximum failures : ℕ) : ℕ :=
  if success then 0 else min maximum (initial * 2 ^ min failures 63)

/-- The condition of `next` on the locked row. A completion under a claim is bound to the transaction
of the claim, `fence`, instead of to the lease. -/
def completes (row : AttemptRow) (token : LeaseToken) (fence : Option ℕ) (transactionId nowMs : ℕ) : Bool :=
  match row.lease with
  | none => false
  | some (leaseUntilMs, leaseToken) =>
    decide (leaseToken = token) &&
      match fence with
      | none => decide (nowMs < leaseUntilMs)
      | some claimed => decide (claimed = transactionId)

/-- What `COMPLETE_SQL` makes of the row. -/
def completedRow (policy : AttemptPolicy) (success : Bool) (nowMs : ℕ) (row : AttemptRow) : AttemptRow :=
  { row with
    failures := nextFailures success row.failures
    lastFailureMs := nowMs
    retryAtMs := nowMs + delayMs success policy.initialDelay.millis policy.maximumDelay.millis row.failures
    lease := none }

/-- The row `COMPLETE_SQL` returns: `failures` and `delay_ms`. -/
structure CompletedColumns where
  failures : ℕ
  delayMs : ℕ
  deriving DecidableEq, Repr

/-- `COMPLETE_SQL` on the row of its key: what it stores and returns, or nothing. -/
def completeRow (policy : AttemptPolicy) (token : LeaseToken) (success : Bool) (fence : Option ℕ)
    (transactionId nowMs : ℕ) (row : AttemptRow) : Except PgCheckError (Option (AttemptRow × CompletedColumns)) :=
  if completes row token fence transactionId nowMs then
    let completed := completedRow policy success nowMs row
    if completed.storable then
      .ok (some (completed, ⟨completed.failures,
        delayMs success policy.initialDelay.millis policy.maximumDelay.millis row.failures⟩))
    else .error .definitelyNotConsumed
  else .ok none

/-- `Duration::from_millis(value.unsigned_abs())`, as a delay. -/
def delayOf (millis : ℕ) : Delay := ⟨Duration.fromMillis millis⟩

/-- `completion_result`. -/
def completionResult (outcome : AttemptOutcome) : Option CompletedColumns → Except PgCheckError AttemptCompletionResult
  | none => .ok .stale
  | some row =>
    if u32Max < row.failures then invariant "invalid attempt failure count"
    else match AttemptCompletion.new outcome row.failures (delayOf row.delayMs) with
      | .error _ => invariant "attempt completion metadata contradicts its outcome"
      | .ok completion => .ok (.applied completion)

/-! ## `attempt_cleanup.sql` -/

/-- What PostgreSQL decides in the cleanup of an admission: its clock sample, the rows that are locked
by others, and the order in which it meets the rows. -/
structure Sweep where
  sampledAtMs : ℕ
  locked : Finset AttemptKey
  scan : List AttemptKey

/-- The key has a row in the shard that has been quiet, and is not locked. -/
def quietIn (sweep : Sweep) (shard : CapacityShard) (rows : AttemptRows) (key : AttemptKey) : Bool :=
  match rows.lookup key with
  | none => false
  | some row =>
    decide (capacityShard key = shard ∧ row.expiryMs ≤ sweep.sampledAtMs ∧ key ∉ sweep.locked)

/-- The expiry of a stored row. -/
def expiryOf (rows : AttemptRows) (key : AttemptKey) : ℕ :=
  match rows.lookup key with
  | none => 0
  | some row => row.expiryMs

/-- The rows `CLEANUP_SQL` selects: the 16 earliest. -/
def cleanupSelect (sweep : Sweep) (shard : CapacityShard) (rows : AttemptRows) : List AttemptKey :=
  ((sweep.scan.dedup.filter (quietIn sweep shard rows)).insertionSort
    fun a b => expiryOf rows a ≤ expiryOf rows b).take 16

/-- `CLEANUP_SQL`. -/
def cleanup (sweep : Sweep) (shard : CapacityShard) (rows : AttemptRows) : AttemptRows :=
  (cleanupSelect sweep shard rows).foldl (fun rows key => rows.erase key) rows

/-! ## Admission -/

/-- What `admit_transaction` makes of the row it found, at the time it sampled: a denial, or the failure
count and last failure to store with the new lease. -/
def judge (policy : AttemptPolicy) (nowMs : ℕ) (row : AttemptRow) :
    Except PgCheckError (Except AttemptDenial (ℕ × ℕ)) :=
  if u32Max < row.failures then invariant "invalid attempt failure count"
  else match row.lease with
    | some (leaseUntilMs, _) =>
      if nowMs < leaseUntilMs then .ok (.error (.busy (delayOf (leaseUntilMs - nowMs))))
      else
        let failures := min (row.failures + 1) u32Max
        settle failures leaseUntilMs (saturatingAddI64 leaseUntilMs (policy.delay failures).asMillis)
    | none => settle row.failures row.lastFailureMs row.retryAtMs
where
  /-- The quiet period, and then the backoff. -/
  settle (failures lastFailureMs retryMs : ℕ) : Except PgCheckError (Except AttemptDenial (ℕ × ℕ)) :=
    if saturatingAddI64 lastFailureMs policy.quietPeriod.millis ≤ nowMs then .ok (.ok (0, lastFailureMs))
    else if nowMs < retryMs then .ok (.error (.backoff (delayOf (retryMs - nowMs))))
    else .ok (.ok (failures, lastFailureMs))

/-- `SELECT count(*) .. WHERE capacity_shard = $1`. -/
def occupancy (shard : CapacityShard) (rows : AttemptRows) : ℕ :=
  (rows.keys.filter fun key => capacityShard key = shard).card

/-- The slots the rows of a shard hold. -/
def slots (shard : CapacityShard) (rows : AttemptRows) : Finset ℕ :=
  (rows.filter fun key _ => decide (capacityShard key = shard)).range (·.capacitySlot)

/-- `SELECT min(slot) .. WHERE NOT EXISTS ..`. -/
def freeSlot (shard : CapacityShard) (maximum : ℕ) (rows : AttemptRows) : Option ℕ :=
  (Finset.range maximum \ slots shard rows).first

/-- The row `INSERT` stores. -/
def insertedRow (policy : AttemptPolicy) (slot nowMs : ℕ) (token : LeaseToken) : AttemptRow where
  capacitySlot := slot
  failures := 0
  lastFailureMs := nowMs
  retryAtMs := nowMs
  quietMs := policy.quietPeriod.millis
  lease := some (saturatingAddI64 nowMs policy.lease.millis, token)

/-- The row `UPDATE` stores. -/
def updatedRow (policy : AttemptPolicy) (failures lastFailureMs nowMs : ℕ) (token : LeaseToken)
    (row : AttemptRow) : AttemptRow :=
  { row with
    failures
    lastFailureMs
    retryAtMs := nowMs
    lease := some (saturatingAddI64 nowMs policy.lease.millis, token) }

/-- The row of an `INSERT` that the primary key and the uniqueness of slots let through. -/
def insertable (key : AttemptKey) (row : AttemptRow) (rows : AttemptRows) : Bool :=
  row.storable && (rows.lookup key).isNone && decide (row.capacitySlot ∉ slots (capacityShard key) rows)

/-- What PostgreSQL decides in one admission. -/
structure AdmitRun where
  sweep : Sweep
  nowMs : ℕ
  token : LeaseToken

/-- A denial leaves the rows as they were before the transaction, but a capacity denial keeps what the
cleanup removed. -/
inductive AdmitOutcome where
  | denied (denial : AttemptDenial)
  | fullShard (cleaned : AttemptRows)
  | reserved (committed : AttemptRows)

/-- `admit_transaction`, for a subject with this key. -/
def admitTransaction (maximum : ℕ) (run : AdmitRun) (policy : AttemptPolicy) (key : AttemptKey)
    (rows : AttemptRows) : Except PgCheckError AdmitOutcome := do
  let shard := capacityShard key
  let rows := cleanup run.sweep shard rows
  match rows.lookup key with
  | some row =>
    match ← judge policy run.nowMs row with
    | .error denial => return .denied denial
    | .ok (failures, lastFailureMs) =>
      let updated := updatedRow policy failures lastFailureMs run.nowMs run.token row
      if updated.storable then return .reserved (rows.insert key updated)
      else throw .definitelyNotConsumed
  | none =>
    if maximum ≤ occupancy shard rows then return .fullShard rows
    else match freeSlot shard maximum rows with
      | none => return .fullShard rows
      | some slot =>
        let inserted := insertedRow policy slot run.nowMs run.token
        if insertable key inserted rows then return .reserved (rows.insert key inserted)
        else throw .definitelyNotConsumed

section Calls

variable [Sha2]

/-- `PostgresAttemptLimiter::admit`. -/
def tryAdmit (config : PostgresConfig) (run : AdmitRun) (subject : AttemptSubject) (rows : AttemptRows) :
    Except PgCheckError (AttemptAdmission PgAttemptReceipt) × AttemptRows :=
  match admitTransaction config.maximumRowsPerShard run subject.policy subject.key rows with
  | .error error => (.error error, rows)
  | .ok (.denied denial) => (.ok (.denied denial), rows)
  | .ok (.fullShard cleaned) => (.ok (.denied .storageCapacity), cleaned)
  | .ok (.reserved committed) => (.ok (.admitted ⟨subject.policy, subject.subject, run.token⟩), committed)

/-- `PostgresAttemptLimiter::complete`, whose transaction runs `COMPLETE_SQL` at this time. -/
def complete (nowMs : ℕ) (receipt : PgAttemptReceipt) (outcome : AttemptOutcome) (rows : AttemptRows) :
    Except PgCheckError AttemptCompletionResult × AttemptRows :=
  match rows.lookup receipt.key with
  | none => (completionResult outcome none, rows)
  | some row =>
    match completeRow receipt.policy receipt.token (decide (outcome = .success)) none 0 nowMs row with
    | .error error => (.error error, rows)
    | .ok none => (completionResult outcome none, rows)
    | .ok (some (completed, columns)) =>
      match completionResult outcome (some columns) with
      | .error error => (.error error, rows)
      | .ok result => (.ok result, rows.insert receipt.key completed)

end Calls

end PgAttempts

end Runlimit
