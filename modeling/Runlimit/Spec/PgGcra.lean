import Runlimit.Spec.Postgres

/-!
# The durable GCRA limiter

`PostgresGcraLimiter` keeps its counters in one table and, in a ledger of 256 shards, the number
of rows and the latest committed time of each shard. An admission locks the ledger rows of its
keys before it reads the clock or a counter, so a committed transaction is a function of the
tables it finds; a transaction that ends in a denial or an error is rolled back. PostgreSQL's clock may
go back: every statement that samples it says what it read.

The `CHECK`s of the schema make counts, times and arrival times natural numbers. Rows with equal
expiry have no order in PostgreSQL, and busy shards are skipped by a cleanup: both are choices of
the run (`CleanupRun`).
-/

namespace Runlimit

/-- A row of `runlimit_gcra`. -/
@[ext]
structure GcraRow where
  tatScaled : ℕ
  expiresAtMs : ℕ
  deriving DecidableEq, Repr

/-- `runlimit_gcra_shards` and `runlimit_gcra`. -/
@[ext]
structure GcraTables where
  shards : CapacityShard → LedgerRow
  rows : Table CounterKey GcraRow

namespace PgGcra

/-- The tables after the migration. -/
def migrated : GcraTables := ⟨fun _ => ⟨0, 0⟩, ∅⟩

/-! ## Admission -/

section Admission

variable [Sha2]

/-- The shards of a transaction: `sort_unstable`, `dedup`. -/
def lockedShards (checks : List (Check GcraPolicy)) : List CapacityShard :=
  ((checks.map fun check => capacityShard check.counterKey).insertionSort (· ≤ ·)).dedup

/-- The loop over the locked ledger rows: it checks their counts and clamps the clock. -/
def readLedger (tables : GcraTables) : List CapacityShard → ℕ → Except PgCheckError ℕ
  | [], now => .ok now
  | shard :: rest, now =>
    if hardMaxRowsPerShard < (tables.shards shard).rowCount then invariant "invalid GCRA capacity ledger"
    else readLedger tables rest (max now (tables.shards shard).observedAtMs)

/-- `gcra::Pending`. -/
inductive Pending where
  | allowed (allowances : List Gcra.PendingAllowance)
  | denied (admission : Admission)

/-- The checks `evaluate` makes on one stored counter. -/
def storedCounter (check : Check GcraPolicy) : Option GcraRow → Except PgCheckError (Option GcraRow)
  | none => .ok none
  | some row =>
    if u128Max < row.tatScaled then invariant "invalid GCRA theoretical arrival time"
    else if divCeil row.tatScaled check.policy.quota.get ≠ row.expiresAtMs then
      invariant "GCRA expiry disagrees with theoretical arrival time"
    else .ok (some row)

/-- The arrival time of a counter that has not expired. -/
def activeTat (now : ℕ) (stored : Option GcraRow) : Option ℕ :=
  (stored.filter fun row => decide (now < row.expiresAtMs)).map (·.tatScaled)

/-- The loop of `gcra::evaluate`, over the inputs with the counters `READ_COUNTERS` found for them.
The whole batch is evaluated; the first denial is kept, and `counts` goes on counting the rows a
commit would add. -/
def evaluateFrom (maximum now : ℕ) : ℕ → List (Check GcraPolicy × Option GcraRow) → (CapacityShard → ℕ) →
    Option Admission → List Gcra.PendingAllowance → Except PgCheckError Pending
  | _, [], _, some denial, _ => .ok (.denied denial)
  | _, [], _, none, pending => .ok (.allowed pending)
  | index, (check, row) :: rest, counts, denial, pending => do
    let stored ← storedCounter check row
    match Gcra.evaluate check now (activeTat now stored) with
    | .error _ => invariant "GCRA arithmetic exceeded exact range"
    | .ok (.denied quota) =>
      evaluateFrom maximum now (index + 1) rest counts
        (denial <|> some (quotaAdmission check.quotaMode index quota)) pending
    | .ok (.allowed allowance) =>
      if stored.isNone then
        let shard := capacityShard check.counterKey
        evaluateFrom maximum now (index + 1) rest (Function.update counts shard (counts shard + 1))
          (if maximum ≤ counts shard then denial <|> some (.denied index (.storageCapacity none)) else denial)
          (pending ++ [allowance])
      else evaluateFrom maximum now (index + 1) rest counts denial (pending ++ [allowance])

def evaluate (checks : List (Check GcraPolicy)) (rows : List (Option GcraRow)) (counts : CapacityShard → ℕ)
    (maximum now : ℕ) : Except PgCheckError Pending :=
  evaluateFrom maximum now 0 (checks.zip rows) counts none []

/-- The rows `UPSERT` writes; an expiry beyond `BIGINT` fails before it. -/
def upsertRows : List (Check GcraPolicy) → List Gcra.PendingAllowance →
    Except PgCheckError (List (CounterKey × GcraRow))
  | check :: checks, allowance :: allowances => do
    if i64Max < allowance.expiresAtMillis then invariant "GCRA expiry exceeds database range"
    else return (check.counterKey, ⟨allowance.tatScaled, allowance.expiresAtMillis⟩) ::
      (← upsertRows checks allowances)
  | _, _ => .ok []

/-- `INSERT .. ON CONFLICT DO UPDATE` of one row. The trigger counts an inserted row, and the
`CHECK` of the ledger refuses one too many. -/
def upsertRow (tables : GcraTables) (entry : CounterKey × GcraRow) : Except PgCheckError GcraTables :=
  match tables.rows.lookup entry.1 with
  | some _ => .ok { tables with rows := tables.rows.insert entry.1 entry.2 }
  | none =>
    let shard := capacityShard entry.1
    let ledger := tables.shards shard
    if hardMaxRowsPerShard ≤ ledger.rowCount then .error .definitelyNotConsumed
    else .ok ⟨Function.update tables.shards shard { ledger with rowCount := ledger.rowCount + 1 },
      tables.rows.insert entry.1 entry.2⟩

/-- `UPDATE runlimit_gcra_shards SET observed_at_ms = $2 WHERE capacity_shard = ANY($1)`. -/
def setObserved (shards : List CapacityShard) (now : ℕ) (tables : GcraTables) : GcraTables :=
  { tables with
    shards := fun shard =>
      if shard ∈ shards then { tables.shards shard with observedAtMs := now } else tables.shards shard }

/-- What an admission transaction commits, if it does; `sample` is what `SAMPLE_TIME` read. -/
def transact {D : Type} (config : PostgresConfig) (sample : ℕ) (checks : List (Check GcraPolicy))
    (build : Admission → Except PgCheckError D) (tables : GcraTables) :
    Except PgCheckError (D × Option GcraTables) := do
  let shards := lockedShards checks
  let now ← readLedger tables shards sample
  let counts shard := if shard ∈ shards then (tables.shards shard).rowCount else 0
  let rows := checks.map fun check => tables.rows.lookup check.counterKey
  match ← evaluate checks rows counts config.maximumRowsPerShard now with
  | .denied admission => return (← build admission, none)
  | .allowed allowances =>
    let entries ← upsertRows checks allowances
    let decision ← build (.allowed (allowances.map (·.allowance)))
    let tables ← entries.foldlM upsertRow tables
    if entries.length ≠ checks.length then invariant "GCRA upsert count disagrees with the batch"
    else return (decision, some (setObserved shards now tables))

/-- `run_transaction`: without a commit the tables are as they were. -/
def runTransaction {D : Type} (config : PostgresConfig) (sample : ℕ) (checks : List (Check GcraPolicy))
    (build : Admission → Except PgCheckError D) (tables : GcraTables) : Except PgCheckError D × GcraTables :=
  match transact config sample checks build tables with
  | .error error => (.error error, tables)
  | .ok (decision, none) => (.ok decision, tables)
  | .ok (decision, some committed) => (.ok decision, committed)

/-- `PostgresGcraLimiter::check`. -/
def check (config : PostgresConfig) (sample : ℕ) (check : Check GcraPolicy) (tables : GcraTables) :
    Except PgCheckError Decision × GcraTables :=
  runTransaction config sample [check] singleDecision tables

/-- `PostgresGcraLimiter::check_all`. -/
def checkAll (config : PostgresConfig) (sample : ℕ) (checks : List (Check GcraPolicy)) (tables : GcraTables) :
    Except PgBatchCheckError BatchDecision × GcraTables :=
  match validateBatch checks config.maxBatchSize with
  | .error error => (.error (.invalidBatch error), tables)
  | .ok () =>
    let (result, tables) := runTransaction config sample checks (batchDecision checks.length) tables
    (result.mapError .check, tables)

end Admission

/-! ## Cleanup -/

/-- What PostgreSQL decides in a cleanup: the two clock samples, the shards that are locked by others,
and the order in which it meets the rows. -/
structure CleanupRun where
  maximumRows : ℕ
  lockSample : ℕ
  advanceSample : ℕ
  busy : Finset CapacityShard
  scan : List CounterKey

/-- The shard has a row that has expired at `now`, or at its own time. -/
def hasExpired (tables : GcraTables) (now : ℕ) (shard : CapacityShard) : Bool :=
  decide (tables.rows.filter fun key row => decide (capacityShard key = shard ∧
    row.expiresAtMs ≤ max now (tables.shards shard).observedAtMs)).keys.Nonempty

/-- `CLEANUP_LOCKS`. -/
def cleanupLocks (run : CleanupRun) (tables : GcraTables) : List CapacityShard :=
  (List.finRange capacityShardCount).filter fun shard =>
    hasExpired tables run.lockSample shard && decide (shard ∉ run.busy)

/-- `CLEANUP_ADVANCE_TIME`. -/
def cleanupAdvanceTime (sample : ℕ) (shards : List CapacityShard) (tables : GcraTables) : GcraTables :=
  setObserved shards (max sample ((shards.map fun shard => (tables.shards shard).observedAtMs).foldl max 0)) tables

/-- The expiry of a stored counter. -/
def expiryOf (tables : GcraTables) (key : CounterKey) : ℕ :=
  match tables.rows.lookup key with
  | none => 0
  | some row => row.expiresAtMs

/-- `ORDER BY expires_at_ms LIMIT n`, of the rows of some keys. -/
def earliest (tables : GcraTables) (n : ℕ) (keys : List CounterKey) : List CounterKey :=
  (keys.insertionSort fun a b => expiryOf tables a ≤ expiryOf tables b).take n

/-- The key has a row in the shard that has expired at the time of the shard. -/
def expiredIn (tables : GcraTables) (shard : CapacityShard) (key : CounterKey) : Bool :=
  match tables.rows.lookup key with
  | none => false
  | some row => decide (capacityShard key = shard ∧ row.expiresAtMs ≤ (tables.shards shard).observedAtMs)

/-- `DELETE` of one row; the trigger gives its slot back, and the `CHECK` of the ledger refuses a
negative count. -/
def deleteRow (tables : GcraTables) (key : CounterKey) : Except MaintenanceError GcraTables :=
  match tables.rows.lookup key with
  | none => .ok tables
  | some _ =>
    let shard := capacityShard key
    let ledger := tables.shards shard
    if ledger.rowCount = 0 then .error .database
    else .ok ⟨Function.update tables.shards shard { ledger with rowCount := ledger.rowCount - 1 },
      tables.rows.erase key⟩

/-- The rows `CLEANUP_DELETE` selects: the earliest of each shard, and of these the earliest. -/
def cleanupSelect (run : CleanupRun) (shards : List CapacityShard) (tables : GcraTables) : List CounterKey :=
  earliest tables run.maximumRows
    (shards.flatMap fun shard => earliest tables run.maximumRows (run.scan.dedup.filter (expiredIn tables shard)))

/-- `cleanup_transaction`. -/
def cleanupTransaction (run : CleanupRun) (tables : GcraTables) : Except MaintenanceError (ℕ × GcraTables) := do
  let shards := cleanupLocks run tables
  let tables := cleanupAdvanceTime run.advanceSample shards tables
  let keys := cleanupSelect run shards tables
  return (keys.length, ← keys.foldlM deleteRow tables)

/-- `PostgresGcraLimiter::cleanup_expired`. -/
def cleanupExpired (run : CleanupRun) (tables : GcraTables) : Except MaintenanceError ℕ × GcraTables :=
  if run.maximumRows = 0 then (.ok 0, tables)
  else match cleanupTransaction run tables with
    | .error error => (.error error, tables)
    | .ok (removed, committed) => (.ok removed, committed)

/-! ## Runs -/

inductive Command [Sha2] where
  /-- `check` or `check_all`, with the time it samples. -/
  | tryAdmit (sample : ℕ) (request : Request GcraPolicy)
  | cleanup (run : CleanupRun)

/-- What an observer sees of one command: an admission at its logical time, or a cleanup. -/
inductive Event [Sha2] where
  | admission (nowMillis : ℕ) (request : Request GcraPolicy) (response : PgResponse)
  | cleanup (result : Except MaintenanceError ℕ)

namespace Event

variable [Sha2]

/-- The logical time of an admission. -/
def nowMillis : Event → ℕ
  | .admission nowMillis _ _ => nowMillis
  | .cleanup _ => 0

/-- A committed admission of some key of the shard. -/
def Touches (shard : CapacityShard) : Event → Prop
  | .admission _ request response =>
    response.allowed = true ∧ ∃ c ∈ request.checks, capacityShard c.counterKey = shard
  | .cleanup _ => False

/-- The cost of a key an event commits. -/
def cost (key : CounterKey) : Event → ℕ
  | .admission _ request response =>
    if response.allowed then ((request.checks.filter fun c => decide (c.counterKey = key)).map (·.cost)).sum else 0
  | .cleanup _ => 0

end Event

section Runs

variable [Sha2]

def Command.checks : Command → List (Check GcraPolicy)
  | .tryAdmit _ request => request.checks
  | .cleanup _ => []

def tryAdmit (config : PostgresConfig) (sample : ℕ) (request : Request GcraPolicy) (tables : GcraTables) :
    PgResponse × GcraTables :=
  match request with
  | .check c =>
    let (result, tables) := check config sample c tables
    (.check result, tables)
  | .checkAll checks =>
    let (result, tables) := checkAll config sample checks tables
    (.checkAll result, tables)

/-- The logical time of an admission: its sample, but not before the time of any of its shards. -/
def clampedMs (tables : GcraTables) (checks : List (Check GcraPolicy)) (sample : ℕ) : ℕ :=
  max sample ((lockedShards checks).toFinset.sup fun shard => (tables.shards shard).observedAtMs)

def perform (config : PostgresConfig) : Command → GcraTables → Event × GcraTables
  | .tryAdmit sample request, tables =>
    let (response, tables') := tryAdmit config sample request tables
    (.admission (clampedMs tables request.checks sample) request response, tables')
  | .cleanup run, tables =>
    let (result, tables') := cleanupExpired run tables
    (.cleanup result, tables')

/-- The tables after some commands. -/
def reached (config : PostgresConfig) (commands : List Command) : GcraTables :=
  Machine.final (perform config) migrated commands

end Runs

end PgGcra

end Runlimit
