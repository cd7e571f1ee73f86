import Runlimit.Spec.Faults
import Runlimit.Proof.PgGcraRate
import Runlimit.Proof.PgWindowScan

/-!
# What a durable check has consumed, whatever fails

A check that ends before its commit has left the database as it was, and says so; only a commit that was
started and not acknowledged leaves its caller in doubt.

* `NotYet`: what holds of a connection up to the commit, and what a failure reports there.
* `decidePhases_decides`, `runTransactionUnder_ends`: a transaction that is not stopped by a fault decides what it
  would decide without one, and sees what it would commit.
* `Ends`: how a transaction can end.
-/

namespace Runlimit

open Fallible Transact

variable {T α D : Type} {tables seen : T}

/-! ## Up to the commit -/

/-- A failure that reports no consumption. -/
def Refusing (result : Except PgCheckError α) : Prop :=
  ∀ error, result = .error error → error.consumption = .notConsumed

/-- What does not fail reports nothing. -/
theorem Refusing.ok (a : α) : Refusing (.ok a) := fun _ h => by cases h

theorem Refusing.invariant (detail : String) : Refusing (invariant detail : Except PgCheckError α) := by
  rintro _ ⟨⟩
  rfl

theorem Refusing.definitelyNotConsumed : Refusing (.error .definitelyNotConsumed : Except PgCheckError α) := by
  rintro _ ⟨⟩
  rfl

/-- A computation refuses if its parts do, where they are reached. -/
theorem Refusing.bind {β : Type} {x : Except PgCheckError α} {f : α → Except PgCheckError β} (hx : Refusing x)
    (hf : ∀ a, x = .ok a → Refusing (f a)) : Refusing (x >>= f) := by
  intro error h
  cases hcase : x with
  | error e =>
    rw [hcase] at h
    cases h
    exact hx _ hcase
  | ok a =>
    rw [hcase] at h
    exact hf a hcase error h

theorem Refusing.mapM {β : Type} {f : α → Except PgCheckError β} (hf : ∀ a, Refusing (f a)) :
    ∀ l : List α, Refusing (l.mapM f) := by
  intro l
  induction l with
  | nil => exact Refusing.ok []
  | cons a rest ih =>
    rw [List.mapM_cons]
    exact (hf a).bind fun _ _ => ih.bind fun _ _ => Refusing.ok _

/-- Nothing is committed, and the transaction sees `seen`. -/
structure NotYet (tables seen : T) (connection : Connection T) : Prop where
  tables_eq : connection.tables = seen
  committed_eq : connection.committed = tables
  tookEffect_eq : connection.tookEffect = false

/-- A failure before the commit: nothing is consumed, and that is what it reports. -/
structure NotConsumed (tables : T) (outcome : ConnectionOutcome PgCheckError) (connection : Connection T) : Prop where
  consumption_eq : outcome.value.consumption = .notConsumed
  committed_eq : connection.committed = tables
  tookEffect_eq : connection.tookEffect = false

/-- A failure before the commit that reports no consumption is right. -/
theorem NotYet.notConsumed {connection : Connection T} (h : NotYet tables seen connection)
    {outcome : ConnectionOutcome PgCheckError} (houtcome : outcome.value.consumption = .notConsumed) :
    NotConsumed tables outcome connection :=
  ⟨houtcome, h.committed_eq, h.tookEffect_eq⟩

/-- Taking the next fault touches no table. -/
theorem nextFault_notYet :
    Triple (NotYet tables seen) nextFault (fun _ => NotYet tables seen) (NotConsumed tables) := by
  intro connection h
  exact ⟨h.tables_eq, h.committed_eq, h.tookEffect_eq⟩

/-- An answer is read, or the connection is given back with the failure. -/
theorem orReusable_notYet {result : Except PgCheckError α} (hresult : Refusing result) :
    Triple (NotYet tables seen) (orReusable result) (fun a s => result = .ok a ∧ NotYet tables seen s)
      (NotConsumed tables) := by
  cases result with
  | ok a => exact Triple.pure fun s hs => ⟨rfl, hs⟩
  | error error => exact Triple.throw fun s hs => hs.notConsumed (hresult error rfl)

/-- A call before the commit: it is answered from what the transaction sees, or it fails. -/
theorem checkBeforeCommit_notYet {phase : CheckPhase} {call : T → Except PgCheckError (α × T)}
    (hcall : Refusing (call seen)) :
    Triple (NotYet tables seen) (checkBeforeCommit phase call)
      (fun a s => ∃ after, call seen = .ok (a, after) ∧ NotYet tables after s) (NotConsumed tables) := by
  refine Triple.bind nextFault_notYet fun fault => ?_
  have hanswered : Triple (NotYet tables seen)
      (do
        let answer ← orReusable (call (← get).tables)
        modify fun connection => { connection with tables := answer.2 }
        return answer.1 : Transact T α)
      (fun a s => ∃ after, call seen = .ok (a, after) ∧ NotYet tables after s) (NotConsumed tables) := by
    intro connection h
    rw [exec_bind, exec_get]
    simp only
    rw [h.tables_eq, exec_bind]
    cases hresult : call seen with
    | error error => exact h.notConsumed (hcall error hresult)
    | ok answer => exact ⟨answer.2, rfl, rfl, h.committed_eq, h.tookEffect_eq⟩
  -- an error, a timeout or the deadline stops the transaction here; a malformed column is met later, when it is
  -- decoded
  cases fault with
  | none => exact hanswered
  | databaseError => exact Triple.throw fun s hs => hs.notConsumed rfl
  | serverTimeout => exact Triple.throw fun s hs => hs.notConsumed rfl
  | deadline => exact Triple.throw fun s hs => hs.notConsumed rfl
  | malformed column => exact hanswered

/-- The timeouts of the server are set, or the transaction stops here. -/
theorem setCheckServerTimeouts_notYet (phase : CheckPhase) :
    Triple (NotYet tables seen) (setCheckServerTimeouts phase) (fun _ => NotYet tables seen) (NotConsumed tables) := by
  refine Triple.bind nextFault_notYet fun fault => ?_
  split
  · exact Triple.throw fun s hs => hs.notConsumed rfl
  · refine (checkBeforeCommit_notYet (Refusing.ok _)).weaken (fun s hs => hs) ?_ (fun e s he => he)
    rintro a s ⟨after, hafter, hs⟩
    cases hafter
    exact hs

/-- A statement under its timeouts, with the effect of its call on what the transaction sees. -/
theorem statement_notYet {phase : CheckPhase} {call : T → Except PgCheckError (α × T)} (hcall : Refusing (call seen)) :
    Triple (NotYet tables seen) (statement phase call)
      (fun a s => ∃ after, call seen = .ok (a, after) ∧ NotYet tables after s) (NotConsumed tables) :=
  Triple.bind (setCheckServerTimeouts_notYet phase) fun _ => checkBeforeCommit_notYet hcall

/-- A query answers with what the transaction sees and changes nothing. -/
theorem query_notYet (phase : CheckPhase) :
    Triple (NotYet tables seen) (query phase) (fun answer s => answer = seen ∧ NotYet tables seen s)
      (NotConsumed tables) := by
  refine (statement_notYet (Refusing.ok _)).weaken (fun s hs => hs) ?_ (fun e s he => he)
  rintro a s ⟨after, hafter, hs⟩
  cases hafter
  exact ⟨rfl, hs⟩

/-- A column that cannot be decoded stops the transaction; otherwise nothing happens. -/
theorem decoding_notYet (details : List String) :
    Triple (NotYet tables seen) (decoding details) (fun _ => NotYet tables seen) (NotConsumed tables) := by
  refine Triple.bind nextFault_notYet fun fault => ?_
  cases fault with
  | malformed column =>
    simp only
    cases details[column]? with
    | none => exact Triple.pure fun s hs => hs
    | some detail => exact Triple.throw fun s hs => hs.notConsumed rfl
  | none => exact Triple.pure fun s hs => hs
  | databaseError => exact Triple.pure fun s hs => hs
  | serverTimeout => exact Triple.pure fun s hs => hs
  | deadline => exact Triple.pure fun s hs => hs

/-! ## The end of a transaction -/

/-- What a transaction returns: the denial it decided, with nothing committed, or its allowance after an acknowledged
commit of what it decided. -/
def Returned (tables : T) (decided : Except PgCheckError (D × Option T)) (outcome : ConnectionOutcome D)
    (connection : Connection T) : Prop :=
  (decided = .ok (outcome.value, none) ∧ connection.committed = tables ∧ connection.tookEffect = false) ∨
    ∃ after, decided = .ok (outcome.value, some after) ∧ connection.committed = after ∧
      connection.tookEffect = true ∧ connection.acknowledged = true

/-- What a transaction fails with: before the commit it has refused, later it says it may have consumed. -/
def Stopped (tables : T) (outcome : ConnectionOutcome PgCheckError) (connection : Connection T) : Prop :=
  NotConsumed tables outcome connection ∨ outcome.value.consumption = .possiblyConsumed

/-- What has not consumed has stopped. -/
theorem Triple.stopped {pre : Connection T → Prop} {m : Transact T α} {ok : α → Connection T → Prop}
    (h : Triple pre m ok (NotConsumed tables)) : Triple pre m ok (Stopped tables) :=
  h.weaken (fun _ hs => hs) (fun _ _ ha => ha) fun _ _ he => Or.inl he

/-- A transaction starts from what is committed. -/
theorem start_notYet : Triple (NotYet tables seen) start (fun _ => NotYet tables tables) (NotConsumed tables) := by
  intro connection h
  have hcall : Triple (NotYet tables seen)
      (checkBeforeCommit .beginningTransaction fun _ => .ok ((), connection.committed) : Transact T Unit)
      (fun _ => NotYet tables tables) (NotConsumed tables) := by
    refine (checkBeforeCommit_notYet (Refusing.ok _)).weaken (fun s hs => hs) ?_ (fun e s he => he)
    rintro a s ⟨after, hafter, hs⟩
    cases hafter
    rw [h.committed_eq] at hs
    exact hs
  unfold start
  rw [exec_bind, exec_get]
  exact hcall connection h

/-- **The commit.** Only when it was started is its caller in doubt. -/
theorem commit_ends (fate : CommitFate) :
    Triple (NotYet tables seen) (commit fate)
      (fun _ s => s.committed = seen ∧ s.tookEffect = true ∧ s.acknowledged = true) (Stopped tables) := by
  refine Triple.bind (Triple.stopped (setCheckServerTimeouts_notYet _)) fun _ => ?_
  refine Triple.bind (Triple.stopped nextFault_notYet) fun fault => ?_
  split
  · -- the deadline has passed before `COMMIT` was sent
    exact Triple.throw fun s hs => Or.inl (hs.notConsumed rfl)
  · intro connection h
    -- from here on the connection knows of the effect only by an acknowledgement
    cases fate with
    | acknowledged => exact ⟨h.tables_eq, rfl, rfl⟩
    | failed tookEffect =>
      cases tookEffect with
      | false => exact Or.inr rfl
      | true => exact Or.inr rfl
    | timedOut tookEffect =>
      cases tookEffect with
      | false => exact Or.inr rfl
      | true => exact Or.inr rfl

/-- An allowed batch: the decision is returned only when the commit is acknowledged. -/
theorem commit_returned {decided : Except PgCheckError (D × Option T)} {decision : D} (fate : CommitFate)
    (hdecided : decided = .ok (decision, some seen)) :
    Triple (NotYet tables seen) (do commit fate; return .reusable decision) (Returned tables decided)
      (Stopped tables) := by
  refine Triple.bind (commit_ends fate) fun _ => Triple.pure ?_
  rintro s ⟨hcommitted, htook, hacknowledged⟩
  exact Or.inr ⟨seen, hdecided, hcommitted, htook, hacknowledged⟩

/-- A denied batch: the rollback does not change the decision. -/
theorem rollback_returned {decided : Except PgCheckError (D × Option T)} {decision : D} (rollback : Fault)
    (hdecided : decided = .ok (decision, none)) :
    Triple (NotYet tables seen) (return finishDeniedTransaction rollback decision) (Returned tables decided)
      (Stopped tables) := by
  refine Triple.pure fun s hs => Or.inl ⟨?_, hs.committed_eq, hs.tookEffect_eq⟩
  rw [hdecided]
  unfold finishDeniedTransaction
  split
  · rfl
  · rfl

/-! ## Calls -/

/-- How a call ended that decides as `decided` says. -/
inductive Accounted (tables : T) (decided : Except PgCheckError (D × Option T)) :
    Ran (Except PgCheckError D) T → Prop
  | refused {error : PgCheckError} {acknowledged : Bool} (h : error.consumption = .notConsumed) :
    Accounted tables decided ⟨.error error, tables, false, acknowledged⟩
  | inDoubt {error : PgCheckError} {committed : T} {tookEffect acknowledged : Bool}
      (h : error.consumption = .possiblyConsumed) :
    Accounted tables decided ⟨.error error, committed, tookEffect, acknowledged⟩
  | denied {decision : D} {acknowledged : Bool} (h : decided = .ok (decision, none)) :
    Accounted tables decided ⟨.ok decision, tables, false, acknowledged⟩
  | allowed {decision : D} {after : T} (h : decided = .ok (decision, some after)) :
    Accounted tables decided ⟨.ok decision, after, true, true⟩

/-- **A call under faults** ends in one of the four ways, if its transaction does. -/
theorem runFaulty_accounted {faults : Faults} {transaction : Transact T (ConnectionOutcome D)}
    {decided : Except PgCheckError (D × Option T)}
    (h : Triple (NotYet tables tables) transaction (Returned tables decided) (Stopped tables)) :
    Accounted tables decided (runFaulty faults transaction tables) := by
  unfold runFaulty
  cases hacquire : acquireCheckConnection (faults.points 0) with
  | error error =>
    -- without a connection nothing was sent
    refine Accounted.refused ?_
    unfold acquireCheckConnection at hacquire
    split at hacquire
    · cases hacquire
      rfl
    · cases hacquire
      rfl
    · cases hacquire
      rfl
    · cases hacquire
  | ok u =>
    have hends := h ⟨fun n => faults.points (n + 1), tables, tables, false, false⟩ ⟨rfl, rfl, rfl⟩
    simp only
    cases hexec : exec transaction ⟨fun n => faults.points (n + 1), tables, tables, false, false⟩ with
    | mk result connection =>
      rw [hexec] at hends
      cases result with
      | ok outcome =>
        rcases hends with ⟨hdecided, hcommitted, htook⟩ | ⟨after, hdecided, hcommitted, htook, hacknowledged⟩
        · simp only [hcommitted, htook]
          exact Accounted.denied hdecided
        · simp only [hcommitted, htook, hacknowledged]
          exact Accounted.allowed hdecided
      | error outcome =>
        rcases hends with hrefused | hdoubt
        · simp only [hrefused.committed_eq, hrefused.tookEffect_eq]
          exact Accounted.refused hrefused.consumption_eq
        · exact Accounted.inDoubt hdoubt

/-- What the caller of a check under faults may rely on. -/
structure Accountable (tables : T) (Consumes : T → Prop) (ran : Ran PgResponse T) : Prop where
  allowed : ran.response.allowed = true → ran.acknowledged = true ∧ ran.tookEffect = true ∧ Consumes ran.committed
  denied : ran.response.denied = true → ran.tookEffect = false ∧ ran.committed = tables
  notConsumed : ran.response.consumption = some .notConsumed → ran.tookEffect = false ∧ ran.committed = tables
  possiblyConsumed : ran.response.consumption.isSome = true → ran.tookEffect = true →
    ran.response.consumption = some .possiblyConsumed

/-- What a transaction that was not stopped decided: a denial, or an allowance that commits the whole batch. -/
def Decides (build : Admission → Except PgCheckError D) (Consumes : T → Prop)
    (decided : Except PgCheckError (D × Option T)) : Prop :=
  ∀ decision committed, decided = .ok (decision, committed) →
    (committed = none ∧ ∃ admission, build admission = .ok decision ∧ ∀ allowances, admission ≠ .allowed allowances) ∨
      ∃ after allowances, committed = some after ∧ build (.allowed allowances) = .ok decision ∧ Consumes after

/-- What the caller of a single check may rely on. -/
theorem Accounted.check {Consumes : T → Prop} {decided : Except PgCheckError (Decision × Option T)}
    {ran : Ran (Except PgCheckError Decision) T} (h : Accounted tables decided ran)
    (hdecides : Decides singleDecision Consumes decided) : Accountable tables Consumes (ran.map .check) := by
  cases h with
  | refused h => exact ⟨nofun, nofun, fun _ => ⟨rfl, rfl⟩, nofun⟩
  | inDoubt h =>
    refine ⟨nofun, nofun, ?_, fun _ _ => congrArg some h⟩
    intro hnot
    have hstatus := Option.some.inj hnot
    rw [h] at hstatus
    cases hstatus
  | @denied decision acknowledged h =>
    rcases hdecides _ _ h with ⟨-, admission, hbuild, hne⟩ | ⟨after, allowances, hafter, -⟩
    · have hallowed := singleDecision_denied hbuild hne
      refine ⟨?_, fun _ => ⟨rfl, rfl⟩, nofun, nofun⟩
      intro hresponse
      cases decision with
      | allowed allowance => exact absurd rfl (hallowed allowance)
      | denied denial => cases hresponse
      | shadowDenied denial => cases hresponse
    · cases hafter
  | @allowed decision after h =>
    rcases hdecides _ _ h with ⟨hnone, -⟩ | ⟨after', allowances, hafter, hbuild, hconsumes⟩
    · cases hnone
    · cases hafter
      -- only an acknowledged commit is answered with an allowance
      obtain ⟨allowance, -, rfl⟩ := singleDecision_allowed hbuild
      exact ⟨fun _ => ⟨rfl, rfl, hconsumes⟩, nofun, nofun, nofun⟩

/-- What the caller of a batch may rely on. -/
theorem Accounted.checkAll {Consumes : T → Prop} {size : ℕ} {decided : Except PgCheckError (BatchDecision × Option T)}
    {ran : Ran (Except PgCheckError BatchDecision) T} (h : Accounted tables decided ran)
    (hdecides : Decides (batchDecision size) Consumes decided) :
    Accountable tables Consumes (ran.map fun result => .checkAll (result.mapError .check)) := by
  cases h with
  | refused h => exact ⟨nofun, nofun, fun _ => ⟨rfl, rfl⟩, nofun⟩
  | inDoubt h =>
    refine ⟨nofun, nofun, ?_, fun _ _ => congrArg some h⟩
    intro hnot
    have hstatus := Option.some.inj hnot
    change PgCheckError.consumption _ = _ at hstatus
    rw [h] at hstatus
    cases hstatus
  | @denied decision acknowledged h =>
    rcases hdecides _ _ h with ⟨-, admission, hbuild, hne⟩ | ⟨after, allowances, hafter, -⟩
    · have hallowed := batchDecision_denied hbuild hne
      refine ⟨?_, fun _ => ⟨rfl, rfl⟩, nofun, nofun⟩
      intro hresponse
      obtain ⟨outcome⟩ := decision
      cases outcome with
      | allowed allowances => exact absurd rfl (hallowed allowances)
      | denied index size denial => cases hresponse
      | shadowDenied index size denial => cases hresponse
    · cases hafter
  | @allowed decision after h =>
    rcases hdecides _ _ h with ⟨hnone, -⟩ | ⟨after', allowances, hafter, hbuild, hconsumes⟩
    · cases hnone
    · cases hafter
      -- only an acknowledged commit is answered with allowances
      rw [batchDecision_allowed hbuild]
      exact ⟨fun _ => ⟨rfl, rfl, hconsumes⟩, nofun, nofun, nofun⟩

/-- An admission that a single check cannot have is an invariant failure, which consumes nothing. -/
theorem singleDecision_refusing (admission : Admission) : Refusing (singleDecision admission) := by
  unfold singleDecision
  split
  · exact Refusing.ok _
  · exact Refusing.invariant _
  · exact Refusing.ok _
  · exact Refusing.ok _
  · exact Refusing.invariant _
  · exact Refusing.invariant _

/-- An admission that does not fit the batch is an invariant failure, which consumes nothing. -/
theorem batchDecision_refusing (size : ℕ) (admission : Admission) : Refusing (batchDecision size admission) := by
  have hmismatch : ∀ result, Refusing (orMismatch result) := by
    intro result
    cases result with
    | ok decision => exact Refusing.ok _
    | error error => exact Refusing.invariant _
  unfold batchDecision
  split
  · split
    · exact Refusing.invariant _
    · exact hmismatch _
  · exact hmismatch _
  · exact hmismatch _

/-- A call, from what its transactions do. -/
theorem tryAdmitFaulty_accountable {P : Type} [RateLimitPolicy P] {config : PostgresConfig} {Consumes : T → Prop}
    {run : {D : Type} → List (Check P) → (Admission → Except PgCheckError D) → Ran (Except PgCheckError D) T}
    {decided : {D : Type} → List (Check P) → (Admission → Except PgCheckError D) → Except PgCheckError (D × Option T)}
    {request : Request P}
    (hrun : ∀ {D : Type} {build : Admission → Except PgCheckError D}, (∀ admission, Refusing (build admission)) →
      Accounted tables (decided request.checks build) (run request.checks build))
    (hdecides : ∀ {D : Type} {build : Admission → Except PgCheckError D}, request.checks ≠ [] →
      (request.checks.map Check.counterKey).Nodup → Decides build Consumes (decided request.checks build)) :
    Accountable tables Consumes (tryAdmitFaulty config run request tables) := by
  cases request with
  | check c => exact (hrun singleDecision_refusing).check (hdecides (List.cons_ne_nil _ _) (List.nodup_singleton _))
  | checkAll checks =>
    unfold tryAdmitFaulty
    simp only
    cases hvalid : validateBatch checks config.maxBatchSize with
    -- an invalid batch reaches no connection
    | error error => exact ⟨nofun, nofun, fun _ => ⟨rfl, rfl⟩, nofun⟩
    | ok u =>
      obtain ⟨hne, hnodup⟩ := validateBatch_ok hvalid
      exact (hrun (batchDecision_refusing _)).checkAll (hdecides hne hnodup)

/-- A call returns the same where its transaction does. -/
theorem tryAdmitFaulty_congr {P : Type} [RateLimitPolicy P] {config : PostgresConfig}
    {run run' : {D : Type} → List (Check P) → (Admission → Except PgCheckError D) → Ran (Except PgCheckError D) T}
    (h : ∀ {D : Type} (checks : List (Check P)) (build : Admission → Except PgCheckError D),
      (run checks build).response = (run' checks build).response) (request : Request P) :
    (tryAdmitFaulty config run request tables).response = (tryAdmitFaulty config run' request tables).response := by
  cases request with
  | check c => exact congrArg PgResponse.check (h _ _)
  | checkAll checks =>
    unfold tryAdmitFaulty
    simp only
    cases validateBatch checks config.maxBatchSize with
    | error error => rfl
    | ok u => exact congrArg (fun result => PgResponse.checkAll (result.mapError .check)) (h _ _)

/-- Transactions that finish alike are answered alike, whatever happens to their rollbacks. -/
theorem runFaulty_congr {faults : Faults} {m m' : Transact T (ConnectionOutcome D)}
    (h : ∀ s, finish (exec m s).1 = finish (exec m' s).1) (rollback : Fault) :
    (runFaulty { faults with rollback } m tables).response = (runFaulty faults m' tables).response := by
  unfold runFaulty
  simp only
  cases acquireCheckConnection (faults.points 0) with
  | error error => rfl
  | ok u => exact h _

/-- What is equal up to the answer stays so under a common beginning. -/
theorem finish_bind {m : Transact T α} {f f' : α → Transact T (ConnectionOutcome D)}
    (h : ∀ a s, finish (exec (f a) s).1 = finish (exec (f' a) s).1) (s : Connection T) :
    finish (exec (m >>= f) s).1 = finish (exec (m >>= f') s).1 := by
  rw [exec_bind, exec_bind]
  cases exec m s with
  | mk result s' =>
    cases result with
    | error e => rfl
    | ok a => exact h a s'

/-- A denial is the answer whether its rollback fails or not. -/
theorem finish_rollback (rollback rollback' : Fault) (decision : D) (s : Connection T) :
    finish (exec (return finishDeniedTransaction rollback decision) s).1 =
      finish (exec (return finishDeniedTransaction rollback' decision) s).1 := by
  have hvalue : ∀ fault, (finishDeniedTransaction fault decision).value = decision := by
    intro fault
    unfold finishDeniedTransaction
    split
    · rfl
    · rfl
  change Except.ok _ = Except.ok _
  rw [hvalue, hvalue]

/-! ## Fixed windows -/

namespace PgWindows

/-- A capacity row that does not belong to the batch is found before the commit. -/
theorem firstCapacityDenial_refusing {shards : List CapacityShard} {maximum : ℕ} :
    ∀ {rows : List CapacityRow} {pending : CapacityShard → ℕ},
      Refusing (firstCapacityDenial shards maximum pending rows) := by
  intro rows
  induction rows with
  | nil => exact fun {pending} => Refusing.ok _
  | cons row rest ih =>
    intro pending
    unfold firstCapacityDenial
    split
    · exact Refusing.invariant _
    · split
      · exact Refusing.invariant _
      · split
        · exact Refusing.ok _
        · exact ih

/-- A window that ends in the past is found before the commit. -/
theorem durationUntil_refusing (expiresAt now : ℕ) : Refusing (durationUntil expiresAt now) := by
  unfold durationUntil
  split
  · exact Refusing.invariant _
  · exact Refusing.ok _

/-- A count beyond the limit is found before the commit. -/
theorem pendingAllowance_refusing (limit : Capacity) (used : ℕ) (reset : Duration) :
    Refusing (PendingAllowance.new limit used reset) := by
  unfold PendingAllowance.new
  split
  · exact Refusing.invariant _
  · split
    · exact Refusing.invariant _
    · exact Refusing.ok _

variable [Sha2] {config : PostgresConfig} {samples : Samples} {checks : List (Check FixedWindowPolicy)}
  {tables seen : WindowTables}

/-- Reading the denied row refuses an index that the batch does not have. -/
theorem readDenial_refusing (now : ℕ) (row : Option (ℕ × ℕ)) : Refusing (readDenial checks now row) := by
  unfold readDenial
  split
  · exact Refusing.ok _
  · split
    · exact Refusing.invariant _
    · exact (durationUntil_refusing _ _).bind fun _ _ => Refusing.ok _

/-- Reading the upserted rows refuses the first one that is out of order, expired or beyond its limit. -/
theorem readUpserted_refusing {now : ℕ} : ∀ {rows : List (ℕ × CounterKey × WindowRow)} {position : ℕ},
    Refusing (readUpserted checks now position rows) := by
  intro rows
  induction rows with
  | nil => exact fun {position} => Refusing.ok _
  | cons row rest ih =>
    intro position
    unfold readUpserted
    split
    · exact Refusing.invariant _
    · -- the row fits its check
      refine (durationUntil_refusing _ _).bind fun remaining _ => ?_
      split
      · exact Refusing.invariant _
      · exact (pendingAllowance_refusing _ _ _).bind fun _ _ => ih.bind fun _ _ => Refusing.ok _

/-- So does reading the allowances, which also counts them. -/
theorem readAllowances_refusing (now : ℕ) (rows : List (ℕ × CounterKey × WindowRow)) :
    Refusing (readAllowances checks now rows) := by
  unfold readAllowances
  split
  · exact Refusing.invariant _
  · refine readUpserted_refusing.bind fun allowances _ => ?_
    split
    · exact Refusing.invariant _
    · exact Refusing.ok _

/-- A shard that has no room for an inserted row fails the upsert, before the commit. -/
theorem upsert_refusing (tables : WindowTables) (now : ℕ) : Refusing (upsert tables now checks) := by
  unfold upsert capacityAfterInsert
  refine Refusing.bind (Refusing.mapM (fun shard => ?_) _) fun _ _ => Refusing.ok _
  split
  · exact Refusing.definitelyNotConsumed
  · exact Refusing.ok _

/-- The two halves of `preflight_batch` and `upsert_batch`, the statement and the reading of its response. -/
theorem preflightBatch_eq_readDenial (now : ℕ) :
    preflightBatch tables now checks = readDenial checks now (firstDenialRow tables now 0 checks) := by
  unfold preflightBatch readDenial
  cases firstDenialRow tables now 0 checks with
  | none => rfl
  | some row => rfl

/-- The halves of `upsert_batch`. -/
theorem upsertBatch_eq_readAllowances {now : ℕ} {writes : Writes} (hwrites : upsert tables now checks = .ok writes) :
    upsertBatch tables now checks =
      (readAllowances checks now (upsertedRows tables now checks)).map fun allowances => (allowances, writes) := by
  unfold upsertBatch readAllowances
  rw [hwrites]
  change (if _ then _ else _) = _
  split
  · rfl
  · cases readUpserted checks now 0 (upsertedRows tables now checks) with
    | error e => rfl
    | ok allowances =>
      change (if _ then _ else _) = Except.map _ (if _ then _ else _)
      split
      · rfl
      · rfl

/-- The capacity phase finds the denial that the code without faults finds. -/
theorem capacityDenialPhase_notYet :
    Triple (NotYet tables seen) (capacityDenialPhase config checks)
      (fun denial s => firstCapacityDenial (checks.map fun check => capacityShard check.counterKey)
          config.maximumRowsPerShard (fun _ => 0) (capacityRows (missingKeys seen checks) seen.rowCounts) = .ok denial ∧
        NotYet tables seen s)
      (NotConsumed tables) := by
  refine Triple.bind (query_notYet _) fun answer => Triple.assuming ?_
  rintro rfl
  exact Triple.bind (decoding_notYet _) fun _ => orReusable_notYet firstCapacityDenial_refusing

/-- The preflight finds the denial that the code without faults finds. -/
theorem preflightPhase_notYet :
    Triple (NotYet tables seen) (preflightPhase samples checks)
      (fun denial s => preflightBatch seen samples.databaseNow checks = .ok denial ∧ NotYet tables seen s)
      (NotConsumed tables) := by
  refine Triple.bind (query_notYet _) fun answer => Triple.assuming ?_
  rintro rfl
  refine Triple.bind (decoding_notYet _) fun _ => ?_
  rw [preflightBatch_eq_readDenial]
  exact orReusable_notYet (readDenial_refusing _ _)

/-- The upsert writes and reads what the code without faults does. -/
theorem upsertPhase_notYet :
    Triple (NotYet tables seen) (upsertPhase samples checks)
      (fun allowances s => ∃ writes, upsertBatch seen samples.databaseNow checks = .ok (allowances, writes) ∧
        NotYet tables (writes.apply seen) s)
      (NotConsumed tables) := by
  refine Triple.bind (statement_notYet ?_) fun answer => ?_
  · exact (upsert_refusing seen samples.databaseNow).bind fun _ _ => Refusing.ok _
  · intro s hs
    obtain ⟨after, hafter, hs⟩ := hs
    -- the writes are there even where their reading fails, but they are not committed
    obtain ⟨writes, hwrites, hafter⟩ := except_bind_eq_ok.1 hafter
    cases hafter
    refine (Triple.bind (decoding_notYet _) fun _ => orReusable_notYet (readAllowances_refusing _ _)).weaken
      (fun s hs => hs) ?_ (fun e s he => he) s hs
    rintro allowances s ⟨hallowances, hs⟩
    refine ⟨writes, ?_, hs⟩
    rw [upsertBatch_eq_readAllowances hwrites, hallowances]
    rfl

/-- **The phases of a batch** decide what the batch decides without faults. -/
theorem executeBatchPhases_notYet :
    Triple (NotYet tables seen) (executeBatchPhases config samples checks)
      (fun decided s => ∃ writes, executeBatch config samples checks seen = .ok (decided.1, decided.2, writes) ∧
        NotYet tables (writes.apply seen) s)
      (NotConsumed tables) := by
  refine Triple.bind capacityDenialPhase_notYet fun capacityDenial => Triple.assuming fun hcapacity => ?_
  refine Triple.bind preflightPhase_notYet fun quotaDenial => Triple.assuming fun hquota => ?_
  unfold executeBatch
  rw [hcapacity, hquota, except_ok_bind, except_ok_bind]
  cases firstOf capacityDenial quotaDenial with
  -- a denial comes before the upsert, and nothing is written
  | some denied => exact Triple.pure fun s hs => ⟨⟨[], []⟩, rfl, hs⟩
  | none =>
    refine Triple.bind upsertPhase_notYet fun allowances => Triple.pure ?_
    rintro s ⟨writes, hwrites, hs⟩
    refine ⟨writes, ?_, hs⟩
    simp only
    rw [hwrites]
    rfl

/-- What a decided transaction commits. -/
def PendingBatchOutcome.commits (after : WindowTables) : PendingBatchOutcome → Option WindowTables
  | .denied _ _ => none
  | .allowed _ => some after

/-- **A transaction that no fault stops decides what it decides without faults.** -/
theorem decidePhases_decides {build : Admission → Except PgCheckError D} (hbuild : ∀ admission, Refusing (build admission)) :
    Triple (NotYet tables tables) (decidePhases config samples checks build)
      (fun decided s => ∃ after,
        transact config samples checks build tables = .ok (decided.1, decided.2.commits after) ∧ NotYet tables after s)
      (NotConsumed tables) := by
  refine Triple.bind start_notYet fun _ => ?_
  refine Triple.bind (query_notYet _) fun _ => Triple.assuming fun _ => ?_
  refine Triple.bind (query_notYet _) fun _ => Triple.assuming fun _ => ?_
  refine Triple.bind executeBatchPhases_notYet fun decided => ?_
  intro s hs
  obtain ⟨writes, hwrites, hs⟩ := hs
  refine (Triple.bind (orReusable_notYet (hbuild _)) fun decision => Triple.pure ?_) s hs
  rintro s ⟨hdecision, hs⟩
  refine ⟨writes.apply tables, ?_, hs⟩
  unfold transact
  rw [hwrites, except_ok_bind]
  simp only
  rw [hdecision, except_ok_bind]
  cases decided.1 with
  | denied index denial => rfl
  | allowed allowances => rfl

/-- **A window transaction** returns what it decides, or stops with an honest status. -/
theorem runCheckTransaction_ends (faults : Faults) {build : Admission → Except PgCheckError D}
    (hbuild : ∀ admission, Refusing (build admission)) :
    Triple (NotYet tables tables) (runCheckTransaction faults config samples checks build)
      (Returned tables (transact config samples checks build tables)) (Stopped tables) := by
  refine Triple.bind (Triple.stopped (decidePhases_decides hbuild)) fun decided => ?_
  obtain ⟨decision, pending⟩ := decided
  intro s hs
  obtain ⟨after, hdecided, hs⟩ := hs
  cases pending with
  | denied index denial => exact rollback_returned faults.rollback hdecided s hs
  | allowed allowances => exact commit_returned faults.commit hdecided s hs

/-- The rollback of a denied batch has no say in the answer. -/
theorem runCheckTransaction_rollback (faults : Faults) (rollback : Fault) {build : Admission → Except PgCheckError D}
    (s : Connection WindowTables) :
    finish (exec (runCheckTransaction { faults with rollback } config samples checks build) s).1 =
      finish (exec (runCheckTransaction faults config samples checks build) s).1 := by
  refine finish_bind ?_ s
  rintro ⟨decision, pending⟩ s
  cases pending with
  | denied index denial => exact finish_rollback _ _ decision s
  | allowed allowances => rfl

/-- The consumption of a whole batch: the row of every check, and of no other key. -/
def Consumes (now : ℕ) (checks : List (Check FixedWindowPolicy)) (tables after : WindowTables) : Prop :=
  (∀ c ∈ checks, ∃ row, upserted now c (tables.rows.lookup c.counterKey) = some row ∧
      after.rows.lookup c.counterKey = some row) ∧
    ∀ key, (∀ c ∈ checks, c.counterKey ≠ key) → after.rows.lookup key = tables.rows.lookup key

/-- **What a window transaction decides** is a denial, or the consumption of the whole batch. -/
theorem transact_decides {build : Admission → Except PgCheckError D} (hne : checks ≠ [])
    (hnodup : (checks.map Check.counterKey).Nodup) :
    Decides build (Consumes samples.databaseNow checks tables) (transact config samples checks build tables) := by
  intro decision committed h
  unfold transact at h
  cases hrefused : firstRefused config tables samples.databaseNow checks with
  | some refused =>
    rw [executeBatch_denied hrefused, except_ok_bind] at h
    obtain ⟨built, hbuilt, h⟩ := except_bind_eq_ok.1 h
    cases h
    refine Or.inl ⟨rfl, _, hbuilt, ?_⟩
    intro allowances
    unfold admissionOf deniedAdmission
    simp only
    split
    · exact quotaAdmission_ne_allowed _ _ _ _
    · exact nofun
  | none =>
    rw [executeBatch_allowed hne hrefused, except_ok_bind] at h
    obtain ⟨built, hbuilt, h⟩ := except_bind_eq_ok.1 h
    cases h
    -- all rows are written, or none
    obtain ⟨hrows, hothers⟩ := lookup_consumedTables hnodup
    refine Or.inr ⟨_, _, rfl, hbuilt, ?_⟩
    rw [consumedWrites_apply]
    refine ⟨fun c hc => ⟨_, (upserted_of_spent ((firstRefused_none hrefused).2.2 c hc)).1, hrows c hc⟩, hothers⟩

end PgWindows

/-! ## GCRA -/

namespace PgGcra

/-- A ledger count out of range is found before the commit. -/
theorem readLedger_refusing (tables : GcraTables) : ∀ {shards : List CapacityShard} {now : ℕ},
    Refusing (readLedger tables shards now) := by
  intro shards
  induction shards with
  | nil => exact fun {now} => Refusing.ok _
  | cons shard rest ih =>
    intro now
    unfold readLedger
    split
    · exact Refusing.invariant _
    · exact ih

/-- A shard that has no room for the row fails the upsert, before the commit. -/
theorem upsertRow_refusing (tables : GcraTables) (entry : CounterKey × GcraRow) : Refusing (upsertRow tables entry) := by
  unfold upsertRow
  split
  · exact Refusing.ok _
  · simp only
    split
    · exact Refusing.definitelyNotConsumed
    · exact Refusing.ok _

/-- So does one without room for a row of the batch. -/
theorem upsert_refusing : ∀ {entries : List (CounterKey × GcraRow)} {tables : GcraTables},
    Refusing (entries.foldlM upsertRow tables) := by
  intro entries
  induction entries with
  | nil => exact fun {tables} => Refusing.ok _
  | cons entry rest ih =>
    intro tables
    rw [List.foldlM_cons]
    exact (upsertRow_refusing tables entry).bind fun _ _ => ih

variable [Sha2] {config : PostgresConfig} {sample : ℕ} {checks : List (Check GcraPolicy)} {tables seen : GcraTables}

/-- An inconsistent stored counter is found before the commit. -/
theorem storedCounter_refusing (c : Check GcraPolicy) (row : Option GcraRow) : Refusing (storedCounter c row) := by
  unfold storedCounter
  split
  · exact Refusing.ok _
  · split
    · exact Refusing.invariant _
    · split
      · exact Refusing.invariant _
      · exact Refusing.ok _

/-- An overflow in the arithmetic is found before the commit. -/
theorem evaluateFrom_refusing {maximum now : ℕ} : ∀ {inputs : List (Check GcraPolicy × Option GcraRow)} {index : ℕ}
    {counts : CapacityShard → ℕ} {denial : Option Admission} {pending : List Gcra.PendingAllowance},
    Refusing (evaluateFrom maximum now index inputs counts denial pending) := by
  intro inputs
  induction inputs with
  | nil =>
    intro index counts denial pending
    unfold evaluateFrom
    cases denial with
    | none => exact Refusing.ok _
    | some denial => exact Refusing.ok _
  | cons input rest ih =>
    intro index counts denial pending
    obtain ⟨c, row⟩ := input
    unfold evaluateFrom
    refine (storedCounter_refusing c row).bind fun stored _ => ?_
    cases Gcra.evaluate c now (activeTat now stored) with
    | error e => exact Refusing.invariant _
    | ok evaluation =>
      cases evaluation with
      -- the batch is evaluated to its end even when an earlier check is denied
      | denied quota => exact ih
      | allowed allowance =>
        simp only
        split
        · exact ih
        · exact ih

/-- An expiry that no column holds is found before the commit. -/
theorem upsertRows_refusing : ∀ {checks : List (Check GcraPolicy)} {allowances : List Gcra.PendingAllowance},
    Refusing (upsertRows checks allowances) := by
  intro checks
  induction checks with
  | nil =>
    intro allowances
    unfold upsertRows
    exact Refusing.ok _
  | cons c rest ih =>
    intro allowances
    cases allowances with
    | nil =>
      unfold upsertRows
      exact Refusing.ok _
    | cons allowance allowances =>
      unfold upsertRows
      split
      · exact Refusing.invariant _
      · exact ih.bind fun _ _ => Refusing.ok _

/-- **The reading phases of a GCRA batch** find the time and the outcome that the code without faults finds. -/
theorem evaluatePhases_notYet :
    Triple (NotYet tables seen) (evaluatePhases config sample checks)
      (fun found s => (readLedger seen (lockedShards checks) sample = .ok found.1 ∧
          evaluate checks (checks.map fun check => seen.rows.lookup check.counterKey)
            (fun shard => if shard ∈ lockedShards checks then (seen.shards shard).rowCount else 0)
            config.maximumRowsPerShard found.1 = .ok found.2) ∧
        NotYet tables seen s)
      (NotConsumed tables) := by
  refine Triple.bind (query_notYet _) fun ledger => Triple.assuming ?_
  rintro rfl
  refine Triple.bind (decoding_notYet _) fun _ => ?_
  refine Triple.bind (query_notYet _) fun _ => Triple.assuming fun _ => ?_
  refine Triple.bind (decoding_notYet _) fun _ => ?_
  refine Triple.bind (orReusable_notYet (readLedger_refusing _)) fun now => Triple.assuming fun hnow => ?_
  refine Triple.bind (query_notYet _) fun read => Triple.assuming ?_
  rintro rfl
  refine Triple.bind (decoding_notYet _) fun _ => ?_
  refine Triple.bind (orReusable_notYet evaluateFrom_refusing) fun pending => Triple.assuming fun hpending => ?_
  exact Triple.pure fun s hs => ⟨⟨hnow, hpending⟩, hs⟩

/-- What a transaction makes of its evaluation. -/
def settle (checks : List (Check GcraPolicy)) (build : Admission → Except PgCheckError D) (tables : GcraTables) (now : ℕ) :
    Pending → Except PgCheckError (D × Option GcraTables)
  | .denied admission => do return (← build admission, none)
  | .allowed allowances => do
    let entries ← upsertRows checks allowances
    let decision ← build (.allowed (allowances.map (·.allowance)))
    let tables ← entries.foldlM upsertRow tables
    if entries.length ≠ checks.length then invariant "GCRA upsert count disagrees with the batch"
    else return (decision, some (setObserved (lockedShards checks) now tables))

/-- The code without faults settles what its evaluation finds. -/
theorem transact_eq_settle {build : Admission → Except PgCheckError D} {now : ℕ} {pending : Pending}
    (hnow : readLedger tables (lockedShards checks) sample = .ok now)
    (hpending : evaluate checks (checks.map fun check => tables.rows.lookup check.counterKey)
      (fun shard => if shard ∈ lockedShards checks then (tables.shards shard).rowCount else 0)
      config.maximumRowsPerShard now = .ok pending) :
    transact config sample checks build tables = settle checks build tables now pending := by
  unfold transact
  simp only [hnow, except_ok_bind, hpending]
  cases pending with
  | denied admission => rfl
  | allowed allowances => rfl

/-- **A GCRA transaction** returns what it decides, or stops with an honest status. -/
theorem runTransactionUnder_ends (faults : Faults) {build : Admission → Except PgCheckError D}
    (hbuild : ∀ admission, Refusing (build admission)) :
    Triple (NotYet tables tables) (runTransactionUnder faults config sample checks build)
      (Returned tables (transact config sample checks build tables)) (Stopped tables) := by
  refine Triple.bind (Triple.stopped start_notYet) fun _ => ?_
  refine Triple.bind (Triple.stopped evaluatePhases_notYet) fun found => Triple.assuming ?_
  obtain ⟨now, pending⟩ := found
  rintro ⟨hnow, hpending⟩
  rw [transact_eq_settle hnow hpending]
  unfold settle
  cases pending with
  | denied admission =>
    refine Triple.bind (Triple.stopped (orReusable_notYet (hbuild _))) fun decision => Triple.assuming fun hdecision => ?_
    simp only
    rw [hdecision]
    -- a denied batch writes nothing
    exact rollback_returned faults.rollback rfl
  | allowed allowances =>
    refine Triple.bind (Triple.stopped (orReusable_notYet upsertRows_refusing)) fun entries =>
      Triple.assuming fun hentries => ?_
    refine Triple.bind (Triple.stopped (orReusable_notYet (hbuild _))) fun decision => Triple.assuming fun hdecision => ?_
    simp only
    rw [hentries, except_ok_bind, hdecision, except_ok_bind]
    refine Triple.bind (Triple.stopped (statement_notYet (upsert_refusing.bind fun _ _ => Refusing.ok _))) fun _ => ?_
    intro s hs
    obtain ⟨after, hafter, hs⟩ := hs
    obtain ⟨middle, hmiddle, hafter⟩ := except_bind_eq_ok.1 hafter
    cases hafter
    rw [hmiddle, except_ok_bind]
    refine (?_ : Triple (NotYet tables after) _ _ _) s hs
    split
    · -- a miscounted upsert is undone
      exact Triple.throw fun s hs => Or.inl (hs.notConsumed rfl)
    · refine Triple.bind (Triple.stopped (statement_notYet (Refusing.ok _))) fun _ => ?_
      intro s hs
      obtain ⟨after, hafter, hs⟩ := hs
      cases hafter
      exact commit_returned faults.commit rfl s hs

/-- The rollback of a denied batch has no say in the answer. -/
theorem runTransactionUnder_rollback (faults : Faults) (rollback : Fault) {build : Admission → Except PgCheckError D}
    (s : Connection GcraTables) :
    finish (exec (runTransactionUnder { faults with rollback } config sample checks build) s).1 =
      finish (exec (runTransactionUnder faults config sample checks build) s).1 := by
  refine finish_bind (fun _ => finish_bind ?_) s
  rintro ⟨now, pending⟩ s
  cases pending with
  | denied admission => exact finish_bind (fun decision => finish_rollback _ _ decision) s
  | allowed allowances => rfl

/-- The consumption of a whole batch: the row of every check, and of no other key. -/
def Consumes (sample : ℕ) (checks : List (Check GcraPolicy)) (tables after : GcraTables) : Prop :=
  (∀ c ∈ checks, ∃ allowance, Evaluated (clampedMs tables checks sample) tables c allowance ∧
      after.rows.lookup c.counterKey = some (rowOf allowance)) ∧
    ∀ key, (∀ c ∈ checks, c.counterKey ≠ key) → after.rows.lookup key = tables.rows.lookup key

/-- **What a GCRA transaction decides** is a denial, or the consumption of the whole batch. -/
theorem transact_decides {build : Admission → Except PgCheckError D} (hnodup : (checks.map Check.counterKey).Nodup) :
    Decides build (Consumes sample checks tables) (transact config sample checks build tables) := by
  intro decision committed h
  rcases transact_cases h with hdenied | ⟨after, allowances, rfl, hcommitted, hbuild⟩
  · exact Or.inl hdenied
  · exact Or.inr ⟨after, _, rfl, hbuild, fun c hc => hcommitted.lookup_of_mem hnodup hc,
      fun key hkey => hcommitted.lookup_of_notMem hkey⟩

end PgGcra

/-! ## Both limiters -/

/-- **What was consumed is known, whatever fails.** -/
theorem consumption_certain [Sha2] (faults : Faults) (config : PostgresConfig) :
    (∀ samples request tables,
      Accountable tables (PgWindows.Consumes samples.databaseNow request.checks tables)
          (PgWindows.tryAdmitUnder faults config samples request tables) ∧
        ∀ rollback, (PgWindows.tryAdmitUnder { faults with rollback } config samples request tables).response =
          (PgWindows.tryAdmitUnder faults config samples request tables).response) ∧
    ∀ sample request tables,
      Accountable tables (PgGcra.Consumes sample request.checks tables)
          (PgGcra.tryAdmitUnder faults config sample request tables) ∧
        ∀ rollback, (PgGcra.tryAdmitUnder { faults with rollback } config sample request tables).response =
          (PgGcra.tryAdmitUnder faults config sample request tables).response := by
  refine ⟨fun samples request tables => ⟨?_, ?_⟩, fun sample request tables => ⟨?_, ?_⟩⟩
  · refine @tryAdmitFaulty_accountable _ _ _ _ _ _ _
      (fun checks build => PgWindows.transact config samples checks build tables) request ?_ ?_
    · intro D build hbuild
      exact runFaulty_accounted (PgWindows.runCheckTransaction_ends faults hbuild)
    · intro D build hne hnodup
      exact PgWindows.transact_decides hne hnodup
  · intro rollback
    refine tryAdmitFaulty_congr (fun checks build => ?_) request
    exact runFaulty_congr (PgWindows.runCheckTransaction_rollback faults rollback) rollback
  · refine @tryAdmitFaulty_accountable _ _ _ _ _ _ _
      (fun checks build => PgGcra.transact config sample checks build tables) request ?_ ?_
    · intro D build hbuild
      exact runFaulty_accounted (PgGcra.runTransactionUnder_ends faults hbuild)
    · intro D build _ hnodup
      exact PgGcra.transact_decides hnodup
  · intro rollback
    refine tryAdmitFaulty_congr (fun checks build => ?_) request
    exact runFaulty_congr (PgGcra.runTransactionUnder_rollback faults rollback) rollback

end Runlimit
