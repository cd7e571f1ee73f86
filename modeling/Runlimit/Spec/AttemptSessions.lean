import Runlimit.Machine.Run
import Runlimit.Spec.PgAttempts

/-!
# Concurrent transactions of the durable attempts

Admissions and the transactions of host applications run side by side under READ COMMITTED. An admission is
the statement sequence of `admit_transaction`: the advisory lock of its shard, the cleanup, the lock of its row, its
clock sample, and then an `UPDATE`, or a count, a slot and an `INSERT`. A host transaction runs `claim_in`,
`finish_in` and `complete_in` in any order, between savepoints; `PostgresAttemptLimiter::complete` is one with a
single `complete_in`. A statement runs when no other transaction holds the lock of the row it locks. Every transaction
may be rolled back at any point, and a host transaction to any of its savepoints, which gives back the locks
taken since.

Receipts and claims are moved, so that each is used once: `tickets` are those still unused. Tokens and
transaction ids are never given twice. What a reservation was made for, and which of them were admitted, claimed and
completed, is recorded next to the tables, and read by no statement.
-/

namespace Runlimit

/-- A receipt whose token the claim has rotated, and the transaction that did. -/
structure PgAttemptClaim where
  receipt : PgAttemptReceipt
  transactionId : ℕ

inductive PgAttemptTicket where
  | receipt (receipt : PgAttemptReceipt)
  | claim (claim : PgAttemptClaim)

/-- The receipt that is presented. -/
def PgAttemptTicket.inner : PgAttemptTicket → PgAttemptReceipt
  | .receipt unused => unused
  | .claim held => held.receipt

/-- The transaction id that is presented. -/
def PgAttemptTicket.fence : PgAttemptTicket → Option ℕ
  | .receipt _ => none
  | .claim held => some held.transactionId

/-- The last `clock_timestamp()` there is, in milliseconds. -/
def maxTimestampMs : ℕ := 9224318015999999

namespace PgAttempts

/-! ## Sessions -/

/-- What a transaction has locked and written; `ROLLBACK TO SAVEPOINT` restores all of it. -/
structure Txn where
  locked : Finset AttemptKey
  own : AttemptRows
  /-- The claims it has made and not finished, by their tokens. -/
  claims : List LeaseToken
  /-- The reservations it has completed, by the tokens of their receipts. -/
  completed : List LeaseToken

/-- Where an admission is in its statements. -/
inductive AdmitPhase where
  | locking
  | cleaning
  | reading
  /-- The row it found and locked. -/
  | sampling (found : Option AttemptRow)
  | counting (nowMs : ℕ)
  | choosing (nowMs : ℕ)
  | inserting (slot nowMs : ℕ)
  | updating (failures lastFailureMs nowMs : ℕ)
  | reserved (token : LeaseToken)
  | fullShard
  | denied (denial : AttemptDenial)
  | failed (error : PgCheckError)

inductive Program where
  | admission (maximum : ℕ) (subject : AttemptSubject) (phase : AdmitPhase)
  /-- With its savepoints, the last first. -/
  | host (savepoints : List Txn)

structure Session where
  txn : Txn
  program : Program

/-- What a token was issued for: the receipt of the reservation, its key and its deadline. -/
structure Reservation where
  receipt : LeaseToken
  key : AttemptKey
  untilMs : ℕ
  deriving DecidableEq

structure World where
  committed : AttemptRows
  /-- By transaction id. -/
  sessions : Table ℕ Session
  started : Finset ℕ
  nowMs : ℕ
  tickets : Table LeaseToken PgAttemptTicket
  issued : Table LeaseToken Reservation
  /-- The reservations that were committed, and those whose completion was. -/
  admitted : List LeaseToken
  completed : List LeaseToken

/-- The database after the migration. -/
def World.start : World := ⟨migrated, ∅, ∅, 0, ∅, ∅, [], []⟩

/-- A transaction that has done nothing. -/
def Txn.new : Txn := ⟨∅, ∅, [], []⟩

/-- What a transaction sees: its own versions where it holds the lock. -/
def Txn.view (txn : Txn) (committed : AttemptRows) : AttemptRows := Finmap.override txn.locked txn.own committed

/-- `FOR UPDATE`. -/
def Txn.lock (txn : Txn) (key : AttemptKey) (committed : AttemptRows) : Txn :=
  { txn with locked := insert key txn.locked, own := txn.view committed }

/-- Locks rows and writes them. -/
def Txn.write (txn : Txn) (keys : Finset AttemptKey) (rows : AttemptRows) : Txn :=
  { txn with locked := txn.locked ∪ keys, own := rows }

/-- The shard whose advisory lock a session holds. -/
def Session.shard [Sha2] (session : Session) : Option CapacityShard :=
  match session.program with
  | .admission _ _ .locking => none
  | .admission _ subject _ => some (capacityShard subject.key)
  | .host _ => none

/-- No other transaction holds the row. -/
def World.rowFree (w : World) (i : ℕ) (key : AttemptKey) : Bool :=
  decide (∀ j ∈ w.sessions.keys, j ≠ i → ∀ session ∈ w.sessions.lookup j, key ∉ session.txn.locked)

/-- The rows that other transactions hold. -/
def World.lockedByOthers (w : World) (i : ℕ) : Finset AttemptKey :=
  w.committed.keys.filter fun key => w.rowFree i key = false

/-- No other transaction holds a row with the slot, or has given a row the slot. -/
def World.slotFree (w : World) (i : ℕ) (shard : CapacityShard) (slot : ℕ) : Bool :=
  decide (∀ j ∈ w.sessions.keys, j ≠ i → ∀ session ∈ w.sessions.lookup j, ∀ key ∈ session.txn.locked,
    capacityShard key = shard → (∀ row ∈ session.txn.own.lookup key, row.capacitySlot ≠ slot) ∧
      ∀ row ∈ w.committed.lookup key, row.capacitySlot ≠ slot)

/-- What a call returns, or a statement of a host transaction. -/
inductive Shown where
  | blocked
  | quiet
  | claimed
  | stale
  | completed (result : Except PgCheckError AttemptCompletionResult)
  | admitted (receipt : PgAttemptReceipt)
  | denied (denial : AttemptDenial)
  | committed

/-- `Applied`, by `finish_in` or `complete_in`. -/
def Shown.applied : Shown → Bool
  | .completed (.ok (.applied _)) => true
  | _ => false

variable [Sha2]

def World.shardFree (w : World) (i : ℕ) (shard : CapacityShard) : Bool :=
  decide (∀ j ∈ w.sessions.keys, j ≠ i → ∀ session ∈ w.sessions.lookup j, session.shard ≠ some shard)

/-! ## Admissions -/

/-- The decision on the row that was found. -/
def judged (policy : AttemptPolicy) (nowMs : ℕ) (row : AttemptRow) : AdmitPhase :=
  match judge policy nowMs row with
  | .error error => .failed error
  | .ok (.error denial) => .denied denial
  | .ok (.ok (failures, lastFailureMs)) => .updating failures lastFailureMs nowMs

/-- What an admission issues its token for. -/
def reservation (subject : AttemptSubject) (nowMs : ℕ) (token : LeaseToken) : Reservation :=
  ⟨token, subject.key, saturatingAddI64 nowMs subject.policy.lease.millis⟩

/-- The `INSERT`, with the token it generates. -/
def insertNew (w : World) (subject : AttemptSubject) (slot nowMs : ℕ) (token : LeaseToken) (txn : Txn) :
    Txn × AdmitPhase × Table LeaseToken Reservation :=
  let rows := txn.view w.committed
  let inserted := insertedRow subject.policy slot nowMs token
  if insertable subject.key inserted rows then
    (txn.write {subject.key} (rows.insert subject.key inserted), .reserved token,
      w.issued.insert token (reservation subject nowMs token))
  else (txn, .failed .definitelyNotConsumed, w.issued)

/-- The `UPDATE`, with the token it generates. -/
def updateExisting (w : World) (subject : AttemptSubject) (failures lastFailureMs nowMs : ℕ) (token : LeaseToken)
    (txn : Txn) : Txn × AdmitPhase × Table LeaseToken Reservation :=
  let rows := txn.view w.committed
  match rows.lookup subject.key with
  | none => (txn, .failed .definitelyNotConsumed, w.issued)
  | some row =>
    let updated := updatedRow subject.policy failures lastFailureMs nowMs token row
    if updated.storable then
      (txn.write {subject.key} (rows.insert subject.key updated), .reserved token,
        w.issued.insert token (reservation subject nowMs token))
    else (txn, .failed .definitelyNotConsumed, w.issued)

/-- The next statement of an admission, which ends at `nowMs`; `none` if it has to wait or is at its end. In the cleanup
PostgreSQL meets the rows in the order of `scan`, and a reservation gets `token`. -/
def advanceAdmit (w : World) (i nowMs : ℕ) (scan : List AttemptKey) (token : LeaseToken) (maximum : ℕ)
    (subject : AttemptSubject) (txn : Txn) : AdmitPhase → Option (Txn × AdmitPhase × Table LeaseToken Reservation)
  | .locking => if w.shardFree i (capacityShard subject.key) then some (txn, .cleaning, w.issued) else none
  | .cleaning =>
    let sweep : Sweep := ⟨nowMs, w.lockedByOthers i, scan⟩
    let shard := capacityShard subject.key
    let rows := txn.view w.committed
    some (txn.write (cleanupSelect sweep shard rows).toFinset (cleanup sweep shard rows), .reading, w.issued)
  | .reading =>
    match (txn.view w.committed).lookup subject.key with
    | none => some (txn, .sampling none, w.issued)
    | some row =>
      if w.rowFree i subject.key then some (txn.lock subject.key w.committed, .sampling (some row), w.issued) else none
  | .sampling none => some (txn, .counting nowMs, w.issued)
  | .sampling (some row) => some (txn, judged subject.policy nowMs row, w.issued)
  | .counting sampledMs =>
    if maximum ≤ occupancy (capacityShard subject.key) (txn.view w.committed) then some (txn, .fullShard, w.issued)
    else some (txn, .choosing sampledMs, w.issued)
  | .choosing sampledMs =>
    match freeSlot (capacityShard subject.key) maximum (txn.view w.committed) with
    | none => some (txn, .fullShard, w.issued)
    | some slot => some (txn, .inserting slot sampledMs, w.issued)
  | .inserting slot sampledMs =>
    if token ∉ w.issued.keys ∧ w.rowFree i subject.key ∧ w.slotFree i (capacityShard subject.key) slot then
      some (insertNew w subject slot sampledMs token txn)
    else none
  | .updating failures lastFailureMs sampledMs =>
    if token ∉ w.issued.keys ∧ w.rowFree i subject.key then
      some (updateExisting w subject failures lastFailureMs sampledMs token txn)
    else none
  | .reserved _ => none
  | .fullShard => none
  | .denied _ => none
  | .failed _ => none

/-! ## Claims and completions -/

/-- What a transaction and the callers have after a statement. -/
structure Outcome where
  shown : Shown
  txn : Txn
  tickets : Table LeaseToken PgAttemptTicket
  issued : Table LeaseToken Reservation

/-- The receipt a token goes back to. -/
def World.receiptOf (w : World) (token : LeaseToken) : LeaseToken :=
  match w.issued.lookup token with
  | none => token
  | some reservation => reservation.receipt

/-- `low_level::claim_in`, which rotates the token. -/
def claimIn (w : World) (i nowMs : ℕ) (txn : Txn) (presented token : LeaseToken) : Option Outcome :=
  match w.tickets.lookup presented with
  | some (.receipt receipt) =>
    let rows := txn.view w.committed
    match rows.lookup receipt.key with
    | none => some ⟨.stale, txn, w.tickets.erase presented, w.issued⟩
    | some row =>
      if w.rowFree i receipt.key ∧ token ∉ w.issued.keys then
        match row.lease with
        | none => some ⟨.stale, txn.lock receipt.key w.committed, w.tickets.erase presented, w.issued⟩
        | some (leaseUntilMs, leaseToken) =>
          if leaseToken = receipt.token ∧ nowMs < leaseUntilMs then
            some {
              shown := .claimed
              txn := { txn.write {receipt.key} (rows.insert receipt.key { row with lease := some (leaseUntilMs, token) }) with
                claims := token :: txn.claims }
              tickets := (w.tickets.erase presented).insert token (.claim ⟨{ receipt with token }, i⟩)
              issued := w.issued.insert token ⟨w.receiptOf presented, receipt.key, leaseUntilMs⟩ }
          else some ⟨.stale, txn.lock receipt.key w.committed, w.tickets.erase presented, w.issued⟩
      else none
  | _ => none

/-- `completion_query` and `completion_result`, which use up the ticket that is presented. -/
def completing (w : World) (i nowMs : ℕ) (txn : Txn) (presented : LeaseToken) (ticket : PgAttemptTicket)
    (outcome : AttemptOutcome) : Option Outcome :=
  let receipt := ticket.inner
  let rows := txn.view w.committed
  let tickets := w.tickets.erase presented
  match rows.lookup receipt.key with
  | none => some ⟨.completed (completionResult outcome none), txn, tickets, w.issued⟩
  | some row =>
    if w.rowFree i receipt.key then
      match completeRow receipt.policy receipt.token (decide (outcome = .success)) ticket.fence i nowMs row with
      | .error error => some ⟨.completed (.error error), txn.lock receipt.key w.committed, tickets, w.issued⟩
      | .ok none => some ⟨.completed (completionResult outcome none), txn.lock receipt.key w.committed, tickets, w.issued⟩
      | .ok (some (completed, columns)) =>
        some {
          shown := .completed (completionResult outcome (some columns))
          txn := { txn.write {receipt.key} (rows.insert receipt.key completed) with
            claims := txn.claims.erase receipt.token
            completed := w.receiptOf receipt.token :: txn.completed }
          tickets
          issued := w.issued }
    else none

/-- `low_level::finish_in`. -/
def finishIn (w : World) (i nowMs : ℕ) (txn : Txn) (presented : LeaseToken) (outcome : AttemptOutcome) :
    Option Outcome :=
  match w.tickets.lookup presented with
  | some (.claim claim) => completing w i nowMs txn presented (.claim claim) outcome
  | _ => none

/-- `low_level::complete_in`. -/
def completeIn (w : World) (i nowMs : ℕ) (txn : Txn) (presented : LeaseToken) (outcome : AttemptOutcome) :
    Option Outcome :=
  match w.tickets.lookup presented with
  | some (.receipt receipt) => completing w i nowMs txn presented (.receipt receipt) outcome
  | _ => none

/-! ## Runs -/

inductive Start where
  | admission (config : PostgresConfig) (subject : AttemptSubject)
  | host

/-- What a transaction does next. -/
inductive Statement where
  | advance (scan : List AttemptKey) (token : LeaseToken)
  | claimIn (presented token : LeaseToken)
  | finishIn (presented : LeaseToken) (outcome : AttemptOutcome)
  | completeIn (presented : LeaseToken) (outcome : AttemptOutcome)
  | savepoint
  /-- To the savepoint at this depth, which stays. -/
  | rollbackTo (depth : ℕ)
  /-- The savepoint at this depth and those after it. -/
  | release (depth : ℕ)

inductive Move where
  | begin (i : ℕ) (what : Start)
  | run (i nowMs : ℕ) (statement : Statement)
  | commit (i : ℕ)
  | rollback (i : ℕ)

def program : Start → Program
  | .admission config subject => .admission config.maximumRowsPerShard subject .locking
  | .host => .host []

/-- A transaction after a statement, with what the callers then hold. -/
def World.ran (w : World) (i nowMs : ℕ) (program : Program) (outcome : Outcome) : World :=
  { w with
    sessions := w.sessions.insert i ⟨outcome.txn, program⟩
    nowMs
    tickets := outcome.tickets
    issued := outcome.issued }

def execute (w : World) (i nowMs : ℕ) (session : Session) (statement : Statement) : Option (Shown × World) :=
  match session.program, statement with
  | .admission maximum subject phase, .advance scan token => do
    let (txn, phase, issued) ← advanceAdmit w i nowMs scan token maximum subject session.txn phase
    return (.quiet, w.ran i nowMs (.admission maximum subject phase) ⟨.quiet, txn, w.tickets, issued⟩)
  | .host savepoints, .claimIn presented token => do
    let outcome ← claimIn w i nowMs session.txn presented token
    return (outcome.shown, w.ran i nowMs (.host savepoints) outcome)
  | .host savepoints, .finishIn presented result => do
    let outcome ← finishIn w i nowMs session.txn presented result
    return (outcome.shown, w.ran i nowMs (.host savepoints) outcome)
  | .host savepoints, .completeIn presented result => do
    let outcome ← completeIn w i nowMs session.txn presented result
    return (outcome.shown, w.ran i nowMs (.host savepoints) outcome)
  | .host savepoints, .savepoint =>
    some (.quiet, w.ran i nowMs (.host (session.txn :: savepoints)) ⟨.quiet, session.txn, w.tickets, w.issued⟩)
  | .host savepoints, .rollbackTo depth => do
    let saved ← savepoints[depth]?
    return (.quiet, w.ran i nowMs (.host (savepoints.drop depth)) ⟨.quiet, saved, w.tickets, w.issued⟩)
  | .host savepoints, .release depth => do
    let _ ← savepoints[depth]?
    return (.quiet, w.ran i nowMs (.host (savepoints.drop (depth + 1))) ⟨.quiet, session.txn, w.tickets, w.issued⟩)
  | _, _ => none

/-- The database after a commit. -/
def World.commit (w : World) (i : ℕ) (txn : Txn) : World :=
  { w with
    committed := txn.view w.committed
    sessions := w.sessions.erase i
    completed := w.completed ++ txn.completed }

/-- A move, unless it has to wait or does not apply. -/
def World.act (w : World) : Move → Option (Shown × World)
  | .begin i what =>
    if i ∈ w.started then none
    else some (.quiet, { w with sessions := w.sessions.insert i ⟨.new, program what⟩, started := insert i w.started })
  | .run i nowMs statement => do
    let session ← w.sessions.lookup i
    if w.nowMs ≤ nowMs ∧ nowMs ≤ maxTimestampMs then execute w i nowMs session statement else none
  | .commit i => do
    let session ← w.sessions.lookup i
    match session.program with
    | .admission _ subject (.reserved token) =>
      let receipt : PgAttemptReceipt := ⟨subject.policy, subject.subject, token⟩
      return (.admitted receipt, { w.commit i session.txn with
        tickets := w.tickets.insert token (.receipt receipt)
        admitted := w.admitted ++ [token] })
    | .admission _ _ .fullShard => return (.denied .storageCapacity, w.commit i session.txn)
    | .admission _ _ _ => none
    | .host _ => return (.committed, w.commit i session.txn)
  | .rollback i => do
    let session ← w.sessions.lookup i
    match session.program with
    | .admission _ _ (.denied denial) => return (.denied denial, { w with sessions := w.sessions.erase i })
    -- `finish_capacity_denial` denies also when the commit of its cleanup fails, or comes too late
    | .admission _ _ .fullShard => return (.denied .storageCapacity, { w with sessions := w.sessions.erase i })
    | _ => return (.quiet, { w with sessions := w.sessions.erase i })

/-- A step of the database: a move that has to wait changes nothing. -/
def step (move : Move) (w : World) : Shown × World := (w.act move).getD (.blocked, w)

/-- The database after some moves. -/
def reached (moves : List Move) : World := Machine.final step World.start moves

end PgAttempts

end Runlimit
