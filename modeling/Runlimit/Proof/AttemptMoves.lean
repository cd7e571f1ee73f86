import Runlimit.Spec.AttemptSessions
import Runlimit.Proof.AttemptRows

/-!
# What the transactions of the attempts do

One inversion for each kind of statement: those of an admission (`Advances`), and the claims and completions of a
host transaction (`Serves`); `Acts` is a move of the whole database. The invariants of the next modules are proved
over these.
-/

namespace Runlimit

namespace PgAttempts

variable {w w' : World} {i j nowMs : ℕ} {session : Session} {txn : Txn} {committed : AttemptRows} {key : AttemptKey}

/-! ## Views and locks -/

/-- A transaction sees its own version of the rows it has locked, and the committed one of all others. -/
theorem Txn.view_lookup (txn : Txn) (committed : AttemptRows) (key : AttemptKey) :
    (txn.view committed).lookup key = if key ∈ txn.locked then txn.own.lookup key else committed.lookup key :=
  Finmap.lookup_override _ _ _ _

/-- A lock takes the rows as they are seen. -/
theorem Txn.own_lock {txn : Txn} {locked key : AttemptKey} :
    (txn.lock locked committed).own.lookup key = (txn.view committed).lookup key := rfl

/-- A lock is one key more. -/
theorem Txn.mem_lock {locked : AttemptKey} : key ∈ (txn.lock locked committed).locked ↔ key = locked ∨ key ∈ txn.locked :=
  Finset.mem_insert

theorem Txn.mem_write {keys : Finset AttemptKey} {rows : AttemptRows} :
    key ∈ (txn.write keys rows).locked ↔ key ∈ txn.locked ∨ key ∈ keys := Finset.mem_union

/-- A lock changes nothing of what is seen. -/
theorem Txn.view_lock (txn : Txn) (locked : AttemptKey) (committed : AttemptRows) :
    (txn.lock locked committed).view committed = txn.view committed := by
  refine Finmap.ext_lookup fun key => ?_
  rw [Txn.view_lookup, Txn.own_lock]
  split
  · rfl
  · -- the lock is on another row
    rename_i hnot
    rw [Txn.view_lookup, if_neg fun h => hnot (Txn.mem_lock.2 (Or.inr h))]

/-- A version that is written is seen. -/
theorem Txn.view_write {keys : Finset AttemptKey} {rows : AttemptRows}
    (h : ∀ key, key ∉ txn.locked ∪ keys → rows.lookup key = committed.lookup key) :
    (txn.write keys rows).view committed = rows := by
  refine Finmap.ext_lookup fun key => ?_
  rw [Txn.view_lookup]
  split
  · rfl
  · rename_i hnot
    exact (h key hnot).symm

/-- A row that is written is seen, and the others as before. -/
theorem Txn.view_insert (txn : Txn) (key : AttemptKey) (row : AttemptRow) (committed : AttemptRows) :
    (txn.write {key} ((txn.view committed).insert key row)).view committed = (txn.view committed).insert key row := by
  refine Txn.view_write fun other hother => ?_
  rw [Finset.mem_union, Finset.mem_singleton, not_or] at hother
  rw [Finmap.lookup_insert_if, if_neg hother.2, Txn.view_lookup, if_neg hother.1]

/-- A row is free unless another session has locked it. -/
theorem rowFree_iff :
    w.rowFree i key = true ↔ ∀ j session, j ≠ i → w.sessions.lookup j = some session → key ∉ session.txn.locked := by
  unfold World.rowFree
  rw [decide_eq_true_iff]
  constructor
  · intro h j session hne hsession
    exact h j (Finmap.mem_keys_iff.2 ⟨session, hsession⟩) hne session hsession
  · intro h j _ hne session hsession
    exact h j session hne hsession

/-- What `SKIP LOCKED` passes over. -/
theorem mem_lockedByOthers : key ∈ w.lockedByOthers i ↔ key ∈ w.committed.keys ∧ w.rowFree i key = false :=
  Finset.mem_filter

/-- A token that was issued goes back to the receipt of its reservation. -/
theorem receiptOf_eq {token : LeaseToken} {reservation : Reservation} (h : w.issued.lookup token = some reservation) :
    w.receiptOf token = reservation.receipt := by
  unfold World.receiptOf
  rw [h]

/-! ## Statements -/

section Statements

variable [Sha2]

/-- A shard is free unless another admission has locked it. -/
theorem shardFree_iff {shard : CapacityShard} :
    w.shardFree i shard = true ↔ ∀ j session, j ≠ i → w.sessions.lookup j = some session → session.shard ≠ some shard := by
  unfold World.shardFree
  rw [decide_eq_true_iff]
  constructor
  · intro h j session hne hsession
    exact h j (Finmap.mem_keys_iff.2 ⟨session, hsession⟩) hne session hsession
  · intro h j _ hne session hsession
    exact h j session hne hsession

/-- What a cleanup by a transaction selects. -/
def swept (w : World) (i nowMs : ℕ) (scan : List AttemptKey) (subject : AttemptSubject) (txn : Txn) : List AttemptKey :=
  cleanupSelect ⟨nowMs, w.lockedByOthers i, scan⟩ (capacityShard subject.key) (txn.view w.committed)

/-- The statements of an admission. -/
inductive Advances (w : World) (i nowMs maximum : ℕ) (subject : AttemptSubject) (txn : Txn) :
    AdmitPhase → Txn → AdmitPhase → Table LeaseToken Reservation → Prop
  | locked (hfree : w.shardFree i (capacityShard subject.key) = true) :
    Advances w i nowMs maximum subject txn .locking txn .cleaning w.issued
  | cleaned (scan : List AttemptKey) {rows : AttemptRows}
      (hrows : ∀ key, rows.lookup key =
        if key ∈ swept w i nowMs scan subject txn then none else (txn.view w.committed).lookup key) :
    Advances w i nowMs maximum subject txn .cleaning
      (txn.write (swept w i nowMs scan subject txn).toFinset rows) .reading w.issued
  | absent (hnone : (txn.view w.committed).lookup subject.key = none) :
    Advances w i nowMs maximum subject txn .reading txn (.sampling none) w.issued
  | found {row : AttemptRow} (hrow : (txn.view w.committed).lookup subject.key = some row)
      (hfree : w.rowFree i subject.key = true) :
    Advances w i nowMs maximum subject txn .reading (txn.lock subject.key w.committed) (.sampling (some row)) w.issued
  | sampled : Advances w i nowMs maximum subject txn (.sampling none) txn (.counting nowMs) w.issued
  | judged (row : AttemptRow) :
    Advances w i nowMs maximum subject txn (.sampling (some row)) txn (judged subject.policy nowMs row) w.issued
  | full {sampledMs : ℕ} (hfull : maximum ≤ occupancy (capacityShard subject.key) (txn.view w.committed)) :
    Advances w i nowMs maximum subject txn (.counting sampledMs) txn .fullShard w.issued
  | counted {sampledMs : ℕ} (hroom : ¬maximum ≤ occupancy (capacityShard subject.key) (txn.view w.committed)) :
    Advances w i nowMs maximum subject txn (.counting sampledMs) txn (.choosing sampledMs) w.issued
  | noSlot {sampledMs : ℕ} (hslot : freeSlot (capacityShard subject.key) maximum (txn.view w.committed) = none) :
    Advances w i nowMs maximum subject txn (.choosing sampledMs) txn .fullShard w.issued
  | chosen {slot sampledMs : ℕ}
      (hslot : freeSlot (capacityShard subject.key) maximum (txn.view w.committed) = some slot) :
    Advances w i nowMs maximum subject txn (.choosing sampledMs) txn (.inserting slot sampledMs) w.issued
  | inserted {slot sampledMs : ℕ} {token : LeaseToken} (hfresh : token ∉ w.issued.keys)
      (hfree : w.rowFree i subject.key = true)
      (hinsertable : insertable subject.key (insertedRow subject.policy slot sampledMs token) (txn.view w.committed) = true) :
    Advances w i nowMs maximum subject txn (.inserting slot sampledMs)
      (txn.write {subject.key}
        ((txn.view w.committed).insert subject.key (insertedRow subject.policy slot sampledMs token)))
      (.reserved token) (w.issued.insert token (reservation subject sampledMs token))
  | refused {slot sampledMs : ℕ} {token : LeaseToken}
      (hnot : ¬insertable subject.key (insertedRow subject.policy slot sampledMs token) (txn.view w.committed) = true) :
    Advances w i nowMs maximum subject txn (.inserting slot sampledMs) txn (.failed .definitelyNotConsumed) w.issued
  | updated {failures lastFailureMs sampledMs : ℕ} {token : LeaseToken} {row : AttemptRow}
      (hrow : (txn.view w.committed).lookup subject.key = some row) (hfresh : token ∉ w.issued.keys)
      (hfree : w.rowFree i subject.key = true)
      (hstorable : (updatedRow subject.policy failures lastFailureMs sampledMs token row).storable = true) :
    Advances w i nowMs maximum subject txn (.updating failures lastFailureMs sampledMs)
      (txn.write {subject.key} ((txn.view w.committed).insert subject.key
        (updatedRow subject.policy failures lastFailureMs sampledMs token row)))
      (.reserved token) (w.issued.insert token (reservation subject sampledMs token))
  | lost {failures lastFailureMs sampledMs : ℕ} {token : LeaseToken}
      (hnot : ∀ row, (txn.view w.committed).lookup subject.key = some row →
        ¬(updatedRow subject.policy failures lastFailureMs sampledMs token row).storable = true) :
    Advances w i nowMs maximum subject txn (.updating failures lastFailureMs sampledMs) txn
      (.failed .definitelyNotConsumed) w.issued

/-- **The statements of an admission**, phase by phase; a statement that has to wait does nothing. -/
theorem advanceAdmit_advances {maximum : ℕ} {subject : AttemptSubject} {scan : List AttemptKey} {token : LeaseToken}
    {phase phase' : AdmitPhase} {txn' : Txn} {issued : Table LeaseToken Reservation}
    (h : advanceAdmit w i nowMs scan token maximum subject txn phase = some (txn', phase', issued)) :
    Advances w i nowMs maximum subject txn phase txn' phase' issued := by
  unfold advanceAdmit at h
  cases phase with
  | locking =>
    simp only at h
    split at h
    · rename_i hfree
      cases h
      exact Advances.locked hfree
    · cases h
  | cleaning =>
    cases h
    exact Advances.cleaned scan fun key => lookup_cleanup
  | reading =>
    simp only at h
    split at h
    · rename_i hnone
      cases h
      exact Advances.absent hnone
    · rename_i row hrow
      split at h
      · rename_i hfree
        cases h
        exact Advances.found hrow hfree
      · cases h
  | sampling found =>
    cases found with
    | none =>
      cases h
      exact Advances.sampled
    | some row =>
      cases h
      exact Advances.judged row
  | counting sampledMs =>
    simp only at h
    split at h
    · rename_i hfull
      cases h
      exact Advances.full hfull
    · rename_i hroom
      cases h
      exact Advances.counted hroom
  | choosing sampledMs =>
    simp only at h
    split at h
    · rename_i hslot
      cases h
      exact Advances.noSlot hslot
    · rename_i slot hslot
      cases h
      exact Advances.chosen hslot
  | inserting slot sampledMs =>
    simp only at h
    split at h
    · rename_i hready
      -- the row of the key is not locked, so that the insertion does not wait
      obtain ⟨hfresh, hfree, -⟩ := hready
      unfold insertNew at h
      simp only [Option.some.injEq] at h
      split at h
      · rename_i hinsertable
        cases h
        exact Advances.inserted hfresh hfree hinsertable
      · rename_i hnot
        cases h
        exact Advances.refused hnot
    · cases h
  | updating failures lastFailureMs sampledMs =>
    simp only at h
    split at h
    · rename_i hready
      obtain ⟨hfresh, hfree⟩ := hready
      unfold updateExisting at h
      simp only [Option.some.injEq] at h
      split at h
      · -- the row was removed since it was read
        rename_i hnone
        cases h
        refine @Advances.lost _ _ _ _ _ _ _ _ _ _ token fun row hrow => ?_
        rw [hnone] at hrow
        cases hrow
      · rename_i row hrow
        split at h
        · rename_i hstorable
          cases h
          exact Advances.updated hrow hfresh hfree hstorable
        · -- the row is there, but cannot be stored
          rename_i hnot
          cases h
          refine @Advances.lost _ _ _ _ _ _ _ _ _ _ token fun row' hrow' => ?_
          rw [hrow] at hrow'
          cases hrow'
          exact hnot
    · cases h
  | reserved token => cases h
  | fullShard => cases h
  | denied denial => cases h
  | failed error => cases h

/-- What a statement shows that has changed nothing. -/
def Shown.Idle (shown : Shown) : Prop :=
  shown = .stale ∨ ∃ result, shown = .completed result ∧ ∀ completion, result ≠ .ok (.applied completion)

/-- The claims and completions of a host transaction: a ticket is used up, and the row of its key is locked if it is
there. -/
inductive Serves (w : World) (i nowMs : ℕ) (txn : Txn) : Outcome → Prop
  | claimed {presented token : LeaseToken} {receipt : PgAttemptReceipt} {row : AttemptRow} {leaseUntilMs : ℕ}
      (hticket : w.tickets.lookup presented = some (.receipt receipt))
      (hrow : (txn.view w.committed).lookup receipt.key = some row) (hfree : w.rowFree i receipt.key = true)
      (hfresh : token ∉ w.issued.keys) (hlease : row.lease = some (leaseUntilMs, receipt.token))
      (hlive : nowMs < leaseUntilMs) :
    Serves w i nowMs txn {
      shown := .claimed
      txn := { txn.write {receipt.key} ((txn.view w.committed).insert receipt.key
          { row with lease := some (leaseUntilMs, token) }) with claims := token :: txn.claims }
      tickets := (w.tickets.erase presented).insert token (.claim ⟨{ receipt with token }, i⟩)
      issued := w.issued.insert token ⟨w.receiptOf presented, receipt.key, leaseUntilMs⟩ }
  | missed {presented : LeaseToken} {ticket : PgAttemptTicket} {shown : Shown} (hshown : shown.Idle)
      (hticket : w.tickets.lookup presented = some ticket)
      (hnone : (txn.view w.committed).lookup ticket.inner.key = none) :
    Serves w i nowMs txn ⟨shown, txn, w.tickets.erase presented, w.issued⟩
  | stale {presented : LeaseToken} {ticket : PgAttemptTicket} {shown : Shown} {row : AttemptRow}
      (hshown : shown.Idle) (hticket : w.tickets.lookup presented = some ticket)
      (hrow : (txn.view w.committed).lookup ticket.inner.key = some row) (hfree : w.rowFree i ticket.inner.key = true) :
    Serves w i nowMs txn ⟨shown, txn.lock ticket.inner.key w.committed, w.tickets.erase presented, w.issued⟩
  | completed {presented : LeaseToken} {ticket : PgAttemptTicket} {outcome : AttemptOutcome} {row completed : AttemptRow}
      {columns : CompletedColumns} (hticket : w.tickets.lookup presented = some ticket)
      (hrow : (txn.view w.committed).lookup ticket.inner.key = some row) (hfree : w.rowFree i ticket.inner.key = true)
      (hcompletes : completeRow ticket.inner.policy ticket.inner.token (decide (outcome = .success)) ticket.fence i nowMs row =
        .ok (some (completed, columns))) :
    Serves w i nowMs txn {
      shown := .completed (completionResult outcome (some columns))
      txn := { txn.write {ticket.inner.key} ((txn.view w.committed).insert ticket.inner.key completed) with
        claims := txn.claims.erase ticket.inner.token
        completed := w.receiptOf ticket.inner.token :: txn.completed }
      tickets := w.tickets.erase presented
      issued := w.issued }

/-- **A claim** uses up the receipt; only a live lease with its token is claimed. -/
theorem claimIn_serves {presented token : LeaseToken} {outcome : Outcome}
    (h : claimIn w i nowMs txn presented token = some outcome) : Serves w i nowMs txn outcome := by
  unfold claimIn at h
  split at h
  · rename_i receipt hticket
    simp only at h
    split at h
    · rename_i hnone
      cases h
      exact Serves.missed (Or.inl rfl) hticket hnone
    · rename_i row hrow
      split at h
      · rename_i hready
        obtain ⟨hfree, hfresh⟩ := hready
        split at h
        · cases h
          exact @Serves.stale _ _ _ _ _ presented (.receipt receipt) _ _ (Or.inl rfl) hticket hrow hfree
        · rename_i leaseUntilMs leaseToken hlease
          split at h
          · -- the lease has this token and has not run out
            rename_i hlive
            obtain ⟨rfl, hlive⟩ := hlive
            cases h
            exact Serves.claimed hticket hrow hfree hfresh hlease hlive
          · cases h
            exact @Serves.stale _ _ _ _ _ presented (.receipt receipt) _ _ (Or.inl rfl) hticket hrow hfree
      · cases h
  · cases h

/-- **A completion** uses up the ticket; only a row that its fence permits is completed. -/
theorem completing_serves {presented : LeaseToken} {ticket : PgAttemptTicket} {result : AttemptOutcome}
    {outcome : Outcome} (hticket : w.tickets.lookup presented = some ticket)
    (h : completing w i nowMs txn presented ticket result = some outcome) : Serves w i nowMs txn outcome := by
  unfold completing at h
  simp only at h
  split at h
  · -- the row is gone
    rename_i hnone
    cases h
    exact Serves.missed (Or.inr ⟨_, rfl, nofun⟩) hticket hnone
  · rename_i row hrow
    split at h
    · rename_i hfree
      split at h
      · cases h
        exact Serves.stale (Or.inr ⟨_, rfl, nofun⟩) hticket hrow hfree
      · cases h
        exact Serves.stale (Or.inr ⟨_, rfl, nofun⟩) hticket hrow hfree
      · rename_i completed columns hcompletes
        cases h
        exact Serves.completed hticket hrow hfree hcompletes
    · cases h

/-- What a statement does to its transaction, and what the callers then hold. -/
inductive Executes (w : World) (i nowMs : ℕ) (session : Session) : Shown → World → Prop
  | advanced {maximum : ℕ} {subject : AttemptSubject} {phase phase' : AdmitPhase} {txn' : Txn}
      {issued : Table LeaseToken Reservation} (hprogram : session.program = .admission maximum subject phase)
      (hadvances : Advances w i nowMs maximum subject session.txn phase txn' phase' issued) :
    Executes w i nowMs session .quiet
      (w.ran i nowMs (.admission maximum subject phase') ⟨.quiet, txn', w.tickets, issued⟩)
  | served {savepoints : List Txn} {outcome : Outcome} (hprogram : session.program = .host savepoints)
      (hserves : Serves w i nowMs session.txn outcome) :
    Executes w i nowMs session outcome.shown (w.ran i nowMs (.host savepoints) outcome)
  | saved {savepoints : List Txn} (hprogram : session.program = .host savepoints) :
    Executes w i nowMs session .quiet
      (w.ran i nowMs (.host (session.txn :: savepoints)) ⟨.quiet, session.txn, w.tickets, w.issued⟩)
  | restored {savepoints : List Txn} {depth : ℕ} {saved : Txn} (hprogram : session.program = .host savepoints)
      (hsaved : savepoints[depth]? = some saved) :
    Executes w i nowMs session .quiet
      (w.ran i nowMs (.host (savepoints.drop depth)) ⟨.quiet, saved, w.tickets, w.issued⟩)
  | released {savepoints : List Txn} (depth : ℕ) (hprogram : session.program = .host savepoints) :
    Executes w i nowMs session .quiet
      (w.ran i nowMs (.host (savepoints.drop (depth + 1))) ⟨.quiet, session.txn, w.tickets, w.issued⟩)

/-- **Statements.** A program takes its own statements only. -/
theorem execute_executes {statement : Statement} {shown : Shown}
    (h : execute w i nowMs session statement = some (shown, w')) : Executes w i nowMs session shown w' := by
  unfold execute at h
  split at h
  · rename_i maximum subject phase scan token hprogram
    obtain ⟨⟨txn', phase', issued⟩, hadvance, h⟩ := Option.bind_eq_some_iff.1 h
    cases h
    exact Executes.advanced hprogram (advanceAdmit_advances hadvance)
  · rename_i savepoints presented token hprogram
    obtain ⟨outcome, hclaim, h⟩ := Option.bind_eq_some_iff.1 h
    cases h
    exact Executes.served hprogram (claimIn_serves hclaim)
  · rename_i savepoints presented result hprogram
    obtain ⟨outcome, hfinish, h⟩ := Option.bind_eq_some_iff.1 h
    cases h
    unfold finishIn at hfinish
    split at hfinish
    · rename_i claim hticket
      exact Executes.served hprogram (completing_serves hticket hfinish)
    · cases hfinish
  · rename_i savepoints presented result hprogram
    obtain ⟨outcome, hcomplete, h⟩ := Option.bind_eq_some_iff.1 h
    cases h
    unfold completeIn at hcomplete
    split at hcomplete
    · rename_i receipt hticket
      exact Executes.served hprogram (completing_serves hticket hcomplete)
    · cases hcomplete
  · rename_i savepoints hprogram
    cases h
    exact Executes.saved hprogram
  · rename_i savepoints depth hprogram
    obtain ⟨saved, hsaved, h⟩ := Option.bind_eq_some_iff.1 h
    cases h
    exact Executes.restored hprogram hsaved
  · rename_i savepoints depth hprogram
    obtain ⟨saved, -, h⟩ := Option.bind_eq_some_iff.1 h
    cases h
    exact Executes.released depth hprogram
  · cases h

/-- What a move does, if it does anything. -/
inductive Acts (w : World) : Move → Shown → World → Prop
  | began {i : ℕ} (what : Start) (hnew : i ∉ w.started) :
    Acts w (.begin i what) .quiet
      { w with sessions := w.sessions.insert i ⟨.new, program what⟩, started := insert i w.started }
  | ran {i nowMs : ℕ} {statement : Statement} {session : Session} {shown : Shown} {w' : World}
      (hsession : w.sessions.lookup i = some session) (hnow : w.nowMs ≤ nowMs) (hmax : nowMs ≤ maxTimestampMs)
      (hexecutes : Executes w i nowMs session shown w') : Acts w (.run i nowMs statement) shown w'
  | reserved {i maximum : ℕ} {session : Session} {subject : AttemptSubject} {token : LeaseToken}
      (hsession : w.sessions.lookup i = some session)
      (hprogram : session.program = .admission maximum subject (.reserved token)) :
    Acts w (.commit i) (.admitted ⟨subject.policy, subject.subject, token⟩)
      { w.commit i session.txn with
        tickets := w.tickets.insert token (.receipt ⟨subject.policy, subject.subject, token⟩)
        admitted := w.admitted ++ [token] }
  | full {i maximum : ℕ} {session : Session} {subject : AttemptSubject} (hsession : w.sessions.lookup i = some session)
      (hprogram : session.program = .admission maximum subject .fullShard) :
    Acts w (.commit i) (.denied .storageCapacity) (w.commit i session.txn)
  | hosted {i : ℕ} {session : Session} {savepoints : List Txn} (hsession : w.sessions.lookup i = some session)
      (hprogram : session.program = .host savepoints) : Acts w (.commit i) .committed (w.commit i session.txn)
  | rolledBack {i : ℕ} {session : Session} {shown : Shown} (hsession : w.sessions.lookup i = some session)
      (hshown : shown = .quiet ∨
        (∃ maximum subject denial,
          session.program = .admission maximum subject (.denied denial) ∧ shown = .denied denial) ∨
        ∃ maximum subject, session.program = .admission maximum subject .fullShard ∧ shown = .denied .storageCapacity) :
    Acts w (.rollback i) shown { w with sessions := w.sessions.erase i }

/-- **Moves.** A move that can be made does one of these. -/
theorem act_acts {move : Move} {shown : Shown} (h : w.act move = some (shown, w')) : Acts w move shown w' := by
  unfold World.act at h
  cases move with
  | begin i what =>
    simp only at h
    split at h
    · cases h
    · rename_i hnew
      cases h
      exact Acts.began what hnew
  | run i nowMs statement =>
    obtain ⟨session, hsession, h⟩ := Option.bind_eq_some_iff.1 h
    split at h
    · rename_i hnow
      exact Acts.ran hsession hnow.1 hnow.2 (execute_executes h)
    · cases h
  | commit i =>
    obtain ⟨session, hsession, h⟩ := Option.bind_eq_some_iff.1 h
    split at h
    · rename_i hprogram
      cases h
      exact Acts.reserved hsession hprogram
    · rename_i hprogram
      cases h
      exact Acts.full hsession hprogram
    · cases h
    · rename_i hprogram
      cases h
      exact Acts.hosted hsession hprogram
  | rollback i =>
    obtain ⟨session, hsession, h⟩ := Option.bind_eq_some_iff.1 h
    split at h
    · -- a denied admission has its denial, whatever becomes of the rollback
      rename_i hprogram
      cases h
      exact Acts.rolledBack hsession (Or.inr (Or.inl ⟨_, _, _, hprogram, rfl⟩))
    · -- so has one that found its shard full; its cleanup is undone
      rename_i hprogram
      cases h
      exact Acts.rolledBack hsession (Or.inr (Or.inr ⟨_, _, hprogram, rfl⟩))
    · cases h
      exact Acts.rolledBack hsession (Or.inl rfl)

/-- A step is a move, or a wait. -/
theorem step_cases (move : Move) (w : World) : Acts w move (step move w).1 (step move w).2 ∨ step move w = (.blocked, w) := by
  unfold step
  cases h : w.act move with
  | none => exact Or.inr rfl
  | some result => exact Or.inl (act_acts h)

/-- **Invariants of the database.** What every move keeps holds in every state that is reached. -/
theorem reached_inv {Keeps : World → Prop}
    (hacts : ∀ {move shown w w'}, Acts w move shown w' → Keeps w → Keeps w') (hstart : Keeps World.start)
    (moves : List Move) : Keeps (reached moves) := by
  refine @Machine.final_inv _ _ _ _ (fun _ => True) _ (fun move w _ hw => ?_) _ hstart moves fun _ _ => trivial
  rcases step_cases move w with h | hblocked
  · exact hacts h hw
  · -- a move that has to wait leaves everything as it is
    rw [hblocked]
    exact hw

end Statements

end PgAttempts

end Runlimit
