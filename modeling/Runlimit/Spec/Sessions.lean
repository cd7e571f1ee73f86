import Runlimit.Spec.PgWindows
import Runlimit.Ledger.Sessions

/-!
# Concurrent sessions of the durable fixed windows

Replicas, cleaners and other writers run their transactions side by side under READ COMMITTED. An
admission is the statement sequence of `run_check_transaction_inner`: its advisory locks, the locks
of its existing rows, the locks of its capacity shards, the preflight, the upsert, and the commit.
A statement that locks takes its snapshot first and then its locks, one at a time; a lock that
another session holds blocks the session until that session ends. Any session may be rolled back
at any point.

A statement that waits inside an upsert or a delete is one that has not run yet: what it has locked
meanwhile no one else changes. `FOR UPDATE` locks the current version of a row, and skips a row that
is gone (a row that was deleted and inserted anew meanwhile is locked here, which only another writer could do). A cleanup may lock any expired row that is free, in any order, and stop where it likes: the
`LIMIT` and the index order of `CLEANUP_SQL` choose among these. Other writers are transactions of
`INSERT`, upsert and `DELETE` statements on the counter table that know nothing of the protocol; the
triggers make them count.
-/

namespace Runlimit

/-- `runlimit_capacity_shards` and `runlimit_fixed_windows`, as tables under transactions. -/
abbrev WindowStore := Ledger.Tables CounterKey WindowRow CapacityShard ℕ

abbrev WindowTxn := Ledger.Txn CounterKey WindowRow CapacityShard ℕ

/-- The tables a statement works on. -/
def WindowStore.tables (store : WindowStore) : WindowTables := ⟨store.ledger, store.rows⟩

def WindowTables.store (tables : WindowTables) : WindowStore := ⟨tables.rowCounts, tables.rows⟩

/-- `i64::from_be_bytes`. -/
def i64OfBytes (bytes : List UInt8) : ℤ :=
  (BitVec.ofNat 64 (bytes.foldl (fun value byte => 256 * value + byte.toNat) 0)).toInt

/-- `protocol::advisory_lock_id`. -/
def advisoryLockId [Sha2] (key : CounterKey) : ℤ :=
  i64OfBytes ((Sha2.sha256 (nulTerminated (strBytes "runlimit/postgres-advisory-lock/v1") ++ key.toBytes)).bytes.take 8)

namespace PgWindows

/-! ## Statements of other writers -/

/-- An `INSERT`, with `ON CONFLICT DO UPDATE` where a key has a row, and its trigger. -/
def insertRows (rows : List (CounterKey × WindowRow)) (tables : WindowTables) : Except PgCheckError Writes := do
  let inserted := (rows.map Prod.fst).filter fun key => (tables.rows.lookup key).isNone
  return ⟨rows, ← capacityAfterInsert tables.rowCounts inserted⟩

/-- The backfill of the migration: it counts the rows it finds. -/
def migrate (rows : Table CounterKey WindowRow) : WindowStore :=
  ⟨fun shard => (rows.keys.filter fun key => capacityShard key = shard).card, rows⟩

/-! ## Sessions -/

/-- Where an admission is in its statements. -/
inductive AdmissionPhase where
  /-- `BATCH_ADVISORY_LOCK_SQL`, with the ids it has yet to lock. -/
  | advisoryLocks (todo : List ℤ)
  /-- `BATCH_ROW_LOCK_SQL`, with the rows of its snapshot it has yet to lock. -/
  | rowLocks (todo : List CounterKey)
  /-- `BATCH_CAPACITY_LOCK_SQL`, with the missing keys of its snapshot and the shards it has yet to lock. -/
  | capacityLocks (missing : List (ℕ × CapacityShard)) (todo : List CapacityShard)
  | preflight (capacityDenial : Option (ℕ × PendingDenial))
  | upsert (databaseNow preflightResponse : ℕ)
  | allowed (samples : Samples) (allowances : List PendingAllowance)
  | denied (index : ℕ) (denial : PendingDenial)
  | failed (error : PgCheckError)

/-- Where a cleanup is in its statement. -/
inductive CleanupPhase where
  | rowLocks
  | ledgerLocks (todo : List CapacityShard)
  | deleted (rows : List CounterKey)

inductive Program [Sha2] where
  | admission (config : PostgresConfig) (checks : List (Check FixedWindowPolicy)) (phase : AdmissionPhase)
  | cleanup (maximumRows sampledAt : ℕ) (picked : List CounterKey) (phase : CleanupPhase)
  /-- Another writer, with the keys it has inserted. -/
  | other (inserted : List CounterKey)

abbrev Session [Sha2] := Ledger.Session CounterKey WindowRow CapacityShard ℕ ℤ Program

abbrev World [Sha2] := Ledger.World CounterKey WindowRow CapacityShard ℕ ℤ Program

abbrev Lock := Ledger.Lock CounterKey CapacityShard ℤ

variable [Sha2]

/-- What a session sees of the tables. -/
def view (w : World) (session : Session) : WindowTables := WindowStore.tables (session.txn.view w.committed)

/-! ## Admissions -/

/-- `advisory_lock_ids`, sorted and without repetitions. -/
def advisoryLockIds (checks : List (Check FixedWindowPolicy)) : List ℤ :=
  ((checks.map fun check => advisoryLockId check.counterKey).insertionSort (· ≤ ·)).dedup

/-- The rows `BATCH_ROW_LOCK_SQL` finds, in the order of their keys. -/
def existingRows (tables : WindowTables) (checks : List (Check FixedWindowPolicy)) : List CounterKey :=
  ((checks.map Check.counterKey).insertionSort (· ≤ ·)).filter fun key => (tables.rows.lookup key).isSome

/-- `target_shards`, in ascending order. -/
def targetShards (missing : List (ℕ × CapacityShard)) : List CapacityShard :=
  ((missing.map Prod.snd).insertionSort (· ≤ ·)).dedup

/-- The shards the insert trigger counts in. -/
def insertedShards (tables : WindowTables) (checks : List (Check FixedWindowPolicy)) : List CapacityShard :=
  targetShards (missingKeys tables checks)

/-- The next phase of a computation that may fail. -/
def orFailed {α : Type} (next : α → AdmissionPhase) : Except PgCheckError α → AdmissionPhase
  | .ok a => next a
  | .error error => .failed error

/-- The merge of the two denials. -/
def afterPreflight (databaseNow responseNow : ℕ) (capacityDenial quotaDenial : Option (ℕ × PendingDenial)) :
    AdmissionPhase :=
  match firstOf capacityDenial quotaDenial with
  | some (index, denial) => .denied index denial
  | none => .upsert databaseNow responseNow

/-- The next lock or statement of an admission; `none` if it has to wait or is at its end. A statement that
samples the clock starts at the time of the database and ends at `responseNow`. -/
def advanceAdmission (w : World) (i responseNow : ℕ) (session : Session) (config : PostgresConfig)
    (checks : List (Check FixedWindowPolicy)) : AdmissionPhase → Option Session
  | .advisoryLocks (id :: todo) =>
    if w.free i (.advisory id) then
      some { session with advisory := insert id session.advisory, program := .admission config checks (.advisoryLocks todo) }
    else none
  | .advisoryLocks [] =>
    some { session with program := .admission config checks (.rowLocks (existingRows (view w session) checks)) }
  | .rowLocks (key :: todo) =>
    if ((view w session).rows.lookup key).isNone then
      some { session with program := .admission config checks (.rowLocks todo) }
    else if w.free i (.row key) then
      some { session with
        txn := session.txn.lock {key} ∅ w.committed
        program := .admission config checks (.rowLocks todo) }
    else none
  | .rowLocks [] =>
    let missing := missingKeys (view w session) checks
    some { session with program := .admission config checks (.capacityLocks missing (targetShards missing)) }
  | .capacityLocks missing (shard :: todo) =>
    if w.free i (.ledger shard) then
      some { session with
        txn := session.txn.lock ∅ {shard} w.committed
        program := .admission config checks (.capacityLocks missing todo) }
    else none
  | .capacityLocks missing [] =>
    some { session with
      program := .admission config checks (orFailed .preflight
        (firstCapacityDenial (checks.map fun check => capacityShard check.counterKey) config.maximumRowsPerShard
          (fun _ => 0) (capacityRows missing (view w session).rowCounts))) }
  | .preflight capacityDenial =>
    some { session with
      program := .admission config checks
        (orFailed (afterPreflight w.now responseNow capacityDenial) (preflightBatch (view w session) w.now checks)) }
  | .upsert databaseNow preflightResponse =>
    let shards := insertedShards (view w session) checks
    if (∀ c ∈ checks, w.free i (.row c.counterKey)) ∧ ∀ shard ∈ shards, w.free i (.ledger shard) then
      match upsertBatch (view w session) databaseNow checks with
      | .ok (allowances, writes) =>
        some { session with
          txn := session.txn.write (checks.map Check.counterKey).toFinset shards.toFinset
            (writes.apply (view w session)).store
          program := .admission config checks (.allowed ⟨databaseNow, preflightResponse, responseNow⟩ allowances) }
      | .error error => some { session with program := .admission config checks (.failed error) }
    else none
  | .allowed _ _ => none
  | .denied _ _ => none
  | .failed _ => none

/-! ## Cleanups and other writers -/

/-- `FOR UPDATE SKIP LOCKED`: a cleanup locks an expired row that is free. -/
def pickRow (w : World) (i : ℕ) (key : CounterKey) (session : Session) : Option Session :=
  match session.program with
  | .cleanup maximumRows sampledAt picked .rowLocks =>
    match w.committed.rows.lookup key with
    | none => none
    | some row =>
      if picked.length < maximumRows ∧ row.expiresAt ≤ sampledAt ∧ key ∉ picked ∧ w.free i (.row key) then
        some { session with
          txn := session.txn.lock {key} ∅ w.committed
          program := .cleanup maximumRows sampledAt (picked ++ [key]) .rowLocks }
      else none
  | _ => none

/-- `locked_capacity`: a cleanup has its rows, or locks its next shard. -/
def lockLedger (w : World) (i : ℕ) (session : Session) : Option Session :=
  match session.program with
  | .cleanup maximumRows sampledAt picked .rowLocks =>
    some { session with
      program := .cleanup maximumRows sampledAt picked
        (.ledgerLocks ((picked.map capacityShard).insertionSort (· ≤ ·)).dedup) }
  | .cleanup maximumRows sampledAt picked (.ledgerLocks (shard :: todo)) =>
    if w.free i (.ledger shard) then
      some { session with
        txn := session.txn.lock ∅ {shard} w.committed
        program := .cleanup maximumRows sampledAt picked (.ledgerLocks todo) }
    else none
  | _ => none

/-- A `DELETE` with its trigger, which waits for the rows and their shards. -/
def deleting (w : World) (i : ℕ) (keys : List CounterKey) (session : Session) (program : Program) : Option Session :=
  if keys.Nodup ∧ (∀ key ∈ keys, key ∈ (view w session).rows.keys ∧ w.free i (.row key)) ∧
      ∀ key ∈ keys, w.free i (.ledger (capacityShard key)) then
    match deleteRows keys (view w session) with
    | .ok tables =>
      some { session with
        txn := session.txn.write keys.toFinset (keys.map capacityShard).toFinset tables.store
        program }
    | .error _ => none
  else none

/-- The `DELETE` of a cleanup, among the rows it has locked, or that of another writer. -/
def runDelete (w : World) (i : ℕ) (keys : List CounterKey) (session : Session) : Option Session :=
  match session.program with
  | .cleanup maximumRows sampledAt picked (.ledgerLocks []) =>
    if ∀ key ∈ keys, key ∈ picked then
      deleting w i keys session (.cleanup maximumRows sampledAt picked (.deleted keys))
    else none
  | .other inserted => deleting w i keys session (.other inserted)
  | _ => none

/-- An `INSERT` of another writer, which waits for the rows, and for the shards of those it inserts. -/
def runInsert (w : World) (i : ℕ) (rows : List (CounterKey × WindowRow)) (session : Session) : Option Session :=
  match session.program with
  | .other inserted =>
    let absent := (rows.map Prod.fst).filter fun key => ((view w session).rows.lookup key).isNone
    if (rows.map Prod.fst).Nodup ∧ (∀ key ∈ rows.map Prod.fst, w.free i (.row key)) ∧
        ∀ key ∈ absent, w.free i (.ledger (capacityShard key)) then
      match insertRows rows (view w session) with
      | .ok writes =>
        some { session with
          txn := session.txn.write (rows.map Prod.fst).toFinset (absent.map capacityShard).toFinset
            (writes.apply (view w session)).store
          program := .other (inserted ++ absent) }
      | .error _ => none
    else none
  | _ => none

/-! ## Runs -/

/-- What a session does next. -/
inductive Statement where
  | advance
  | pick (key : CounterKey)
  | lockLedger
  | delete (keys : List CounterKey)
  | insert (rows : List (CounterKey × WindowRow))

inductive Start where
  | admission (config : PostgresConfig) (request : Request FixedWindowPolicy)
  | cleanup (maximumRows : ℕ)
  | other

/-- What a commit shows. -/
inductive Report where
  | admitted (config : PostgresConfig) (samples : Samples) (checks : List (Check FixedWindowPolicy))
      (admission : Admission)
  | cleaned (maximumRows sampledAt : ℕ) (deleted : List CounterKey)
  | changed (inserted : List CounterKey)

/-- `validate_batch`, which an admission passes before it takes a connection. -/
def accepts (config : PostgresConfig) : Request FixedWindowPolicy → Bool
  | .check _ => true
  | .checkAll checks => decide (validateBatch checks config.maxBatchSize = .ok ())

def opens (w : World) : Start → Option Program
  | .admission config request =>
    if accepts config request then
      some (.admission config request.checks (.advisoryLocks (advisoryLockIds request.checks)))
    else none
  | .cleanup maximumRows => some (.cleanup maximumRows w.now [] .rowLocks)
  | .other => some (.other [])

def execute (w : World) (i responseNow : ℕ) (session : Session) : Statement → Option Session
  | .advance =>
    match session.program with
    | .admission config checks phase => advanceAdmission w i responseNow session config checks phase
    | _ => none
  | .pick key => pickRow w i key session
  | .lockLedger => lockLedger w i session
  | .delete keys => runDelete w i keys session
  | .insert rows => runInsert w i rows session

/-- What a commit reports; a denied admission is rolled back. -/
def report (session : Session) : Option Report :=
  match session.program with
  | .admission config checks (.allowed samples allowances) =>
    some (.admitted config samples checks
      (admissionOf checks (authoritativeElapsed samples.databaseNow samples.upsertResponse) (.allowed allowances)))
  | .cleanup maximumRows sampledAt _ (.deleted rows) => some (.cleaned maximumRows sampledAt rows)
  | .other inserted => some (.changed inserted)
  | _ => none

/-- The sessions of the durable fixed windows. -/
def programs : Ledger.Programs CounterKey WindowRow CapacityShard ℕ ℤ Program Start Statement Report where
  opens
  execute
  reported := report

abbrev Move := Ledger.Move Start Statement

/-- The database after some moves. -/
def interleaved (committed : WindowStore) (moves : List Move) : World := Ledger.interleaved programs committed moves

end PgWindows

end Runlimit
