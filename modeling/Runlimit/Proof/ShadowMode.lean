import Runlimit.Proof.Prim
import Runlimit.Spec.StoreRun

/-!
# Shadow mode only relabels

A run and the run with every quota mode flipped go through the same states and differ in the label of a
quota denial alone. The twin of a policy has the other mode and the same fingerprint, so that the
twins of the checks of a call share their keys, shards and arithmetic; every function that is given a
twin returns the relabelled result (`*_twin`), and so does a whole run (`Machine.run_relabel`).
-/

namespace Runlimit

/-! ## Twins -/

def QuotaMode.flip : QuotaMode → QuotaMode
  | .enforce => .shadow
  | .shadow => .enforce

theorem QuotaMode.flip_inj {a b : QuotaMode} : a.flip = b.flip ↔ a = b := by
  cases a <;> cases b <;> decide

def FixedWindowPolicy.twin (p : FixedWindowPolicy) : FixedWindowPolicy := p.withQuotaMode p.quotaMode.flip

def GcraPolicy.twin (p : GcraPolicy) : GcraPolicy := p.withQuotaMode p.quotaMode.flip

/-- Policies with a twin that differs in its quota mode alone, as far as a check can tell. -/
class HasTwin (P : Type) [RateLimitPolicy P] where
  twin : P → P
  capacity_twin : ∀ p : P, RateLimitPolicy.capacity (twin p) = RateLimitPolicy.capacity p
  fingerprint_twin : ∀ p : P, RateLimitPolicy.fingerprint (twin p) = RateLimitPolicy.fingerprint p
  quotaMode_twin : ∀ p : P, RateLimitPolicy.quotaMode (twin p) = (RateLimitPolicy.quotaMode p).flip

instance [Sha2] : HasTwin FixedWindowPolicy where
  twin := FixedWindowPolicy.twin
  capacity_twin _ := rfl
  fingerprint_twin _ := rfl
  quotaMode_twin _ := rfl

instance [Sha2] : HasTwin GcraPolicy where
  twin := GcraPolicy.twin
  capacity_twin _ := rfl
  fingerprint_twin _ := rfl
  quotaMode_twin _ := rfl

section Twins

variable {P : Type} [RateLimitPolicy P] [HasTwin P]

/-- The same check of the twin policy. -/
def Check.twin (check : Check P) : Check P where
  policy := HasTwin.twin check.policy
  subject := check.subject
  cost := check.cost
  cost_pos := check.cost_pos
  cost_le := by
    rw [HasTwin.capacity_twin]
    exact check.cost_le

@[simp]
theorem Check.counterKey_twin (check : Check P) : check.twin.counterKey = check.counterKey := by
  unfold Check.counterKey Check.twin
  rw [HasTwin.fingerprint_twin]

@[simp]
theorem Check.quotaMode_twin (check : Check P) : check.twin.quotaMode = check.quotaMode.flip :=
  HasTwin.quotaMode_twin check.policy

def Request.twin : Request P → Request P
  | .check c => .check c.twin
  | .checkAll checks => .checkAll (checks.map Check.twin)

def StoreRequest.twin : StoreRequest P → StoreRequest P
  | .tryAdmit clock request => .tryAdmit clock request.twin
  | .clear => .clear
  | .recoverPoisoned => .recoverPoisoned

end Twins

/-! ## Labels -/

/-- The other label of a quota denial; nothing else changes. -/
def Decision.relabel : Decision → Decision
  | .denied (.quotaExceeded denial) => .shadowDenied denial
  | .shadowDenied denial => .denied (.quotaExceeded denial)
  | decision => decision

def BatchOutcome.relabel : BatchOutcome → BatchOutcome
  | .denied index batchSize (.quotaExceeded denial) => .shadowDenied index batchSize denial
  | .shadowDenied index batchSize denial => .denied index batchSize (.quotaExceeded denial)
  | outcome => outcome

def BatchDecision.relabel (decision : BatchDecision) : BatchDecision := ⟨decision.outcome.relabel⟩

/-- The mode values a `MixedQuotaModes` error names. -/
def BatchError.relabel : BatchError → BatchError
  | .mixedQuotaModes first index actual => .mixedQuotaModes first.flip index actual.flip
  | error => error

def MemoryBatchError.relabel : MemoryBatchError → MemoryBatchError
  | .invalidBatch error => .invalidBatch error.relabel
  | error => error

def GcraBatchError.relabel : GcraBatchError → GcraBatchError
  | .store error => .store error.relabel
  | error => error

def Response.relabel : Response → Response
  | .check result => .check (result.map (·.map Decision.relabel))
  | .checkAll result => .checkAll (result.map fun r => (r.map BatchDecision.relabel).mapError GcraBatchError.relabel)

def StoreResponse.relabel : StoreResponse → StoreResponse
  | .admission response => .admission response.relabel
  | response => response

theorem Decision.quotaExceeded_flip (mode : QuotaMode) (denial : QuotaDenial) :
    Decision.quotaExceeded mode.flip denial = (Decision.quotaExceeded mode denial).relabel := by
  cases mode with
  | enforce => rfl
  | shadow => rfl

/-- The constructor of a batch denial puts the other label under the other mode, and refuses the same indices. -/
theorem BatchDecision.quotaExceeded_flip (mode : QuotaMode) (index batchSize : ℕ) (denial : QuotaDenial) :
    BatchDecision.quotaExceeded mode.flip index batchSize denial =
      (BatchDecision.quotaExceeded mode index batchSize denial).map BatchDecision.relabel := by
  unfold BatchDecision.quotaExceeded BatchDecision.shadowDenied BatchDecision.denied validateBatchIndex
  cases mode with
  | enforce =>
    by_cases h : index < batchSize
    · simp only [h, if_true]
      rfl
    · simp only [h, if_false]
      rfl
  | shadow =>
    by_cases h : index < batchSize
    · simp only [h, if_true]
      rfl
    · simp only [h, if_false]
      rfl

/-- A denial for want of storage has no label. -/
theorem BatchDecision.denied_storage (index batchSize : ℕ) (retryAfter : Option Delay) :
    (BatchDecision.denied index batchSize (.storageCapacity retryAfter)).map BatchDecision.relabel =
      BatchDecision.denied index batchSize (.storageCapacity retryAfter) := by
  unfold BatchDecision.denied validateBatchIndex
  by_cases h : index < batchSize
  · simp only [h, if_true]
    rfl
  · simp only [h, if_false]
    rfl

/-- A mapped result is expected as the result is. -/
theorem expectOk_map {ε α β : Type} (message : String) (f : α → β) (result : Except ε α) :
    expectOk message (result.map f) = (expectOk message result).map f := by
  cases result with
  | error error => rfl
  | ok a => rfl

theorem indexed_map {α β : Type} (f : α → β) (l : List α) (i : ℕ) : indexed (l.map f) i = (indexed l i).map f := by
  unfold indexed
  rw [List.getElem?_map]
  cases l[i]? with
  | none => rfl
  | some a => rfl

/-! ## Validation -/

section Validation

variable {P : Type} [RateLimitPolicy P] [HasTwin P]

/-- The twins of a batch are valid together or break the same rule at the same index; only the modes that the error
names differ. -/
theorem validateBatchLoop_twin (mode : QuotaMode) {checks : List (Check P)} :
    ∀ {index : ℕ} {firstIndices : Table CounterKey ℕ},
    validateBatchLoop mode.flip index firstIndices (checks.map Check.twin) =
      (validateBatchLoop mode index firstIndices checks).mapError BatchError.relabel := by
  induction checks with
  | nil => exact fun {_ _} => rfl
  | cons check rest ih =>
    intro index firstIndices
    rw [List.map_cons, validateBatchLoop, validateBatchLoop, Check.counterKey_twin, Check.quotaMode_twin]
    by_cases hmode : check.quotaMode = mode
    · rw [if_neg (not_not.2 (QuotaMode.flip_inj.2 hmode)), if_neg (not_not.2 hmode)]
      cases firstIndices.lookup check.counterKey with
      | some firstIndex => rfl
      | none => exact ih
    · rw [if_pos (fun h => hmode (QuotaMode.flip_inj.1 h)), if_pos hmode]
      rfl

/-- **Validation.** A batch of twins gets the verdict of the batch. -/
theorem validateBatch_twin (checks : List (Check P)) (maximum : ℕ) :
    validateBatch (checks.map Check.twin) maximum = (validateBatch checks maximum).mapError BatchError.relabel := by
  cases checks with
  | nil => rfl
  | cons first rest =>
    rw [List.map_cons]
    unfold validateBatch
    simp only
    rw [← List.map_cons, List.length_map]
    by_cases hlarge : maximum < (first :: rest).length
    · rw [if_pos hlarge, if_pos hlarge]
      rfl
    · rw [if_neg hlarge, if_neg hlarge, Check.quotaMode_twin]
      exact validateBatchLoop_twin first.quotaMode

end Validation

/-- The value of an evaluation, relabelled; its effects are the same. -/
def Evaluation.relabel {T E : Type} (f : T → T) (e : Evaluation T E) : Evaluation T E := ⟨f e.value, e.effect⟩

/-- A full shard gives a denial for want of storage, which has no label. -/
theorem Shard.storageCapacityDenial_storage {E : Type} {s : Shard E} {nowMillis : ℕ} {denial : Denial}
    (h : s.storageCapacityDenial nowMillis = .ok denial) : ∃ retryAfter, denial = .storageCapacity retryAfter := by
  unfold Shard.storageCapacityDenial at h
  split at h
  · cases h
    exact ⟨_, rfl⟩
  · split at h
    · cases h
      exact ⟨_, rfl⟩
    · cases h

/-- A batch that is not routed is too large for a shard, in whatever mode. -/
theorem topology_new_error {config : MemoryStoreConfig} {shardIndexes : List (Fin config.shardCount)}
    {error : MemoryBatchError} (h : BatchTopology.new config shardIndexes = .ok (.error error)) :
    ∃ shardIndex keyCount capacity, error = .batchExceedsShardCapacity shardIndex keyCount capacity := by
  unfold BatchTopology.new at h
  obtain ⟨p, -, h⟩ := except_bind_eq_ok.1 h
  simp only at h
  split at h
  · cases h
    exact ⟨_, _, _, rfl⟩
  · cases h

/-! ## The fixed-window store -/

namespace MemoryStore

variable [Sha2] {config : MemoryStoreConfig}

/-- A prepared window check holds nothing of the mode. -/
theorem prepare_twin (inputIndex : ℕ) (check : Check FixedWindowPolicy) (shardPosition : ℕ) :
    prepare inputIndex check.twin shardPosition = prepare inputIndex check shardPosition := by
  unfold prepare
  rw [Check.counterKey_twin]
  rfl

/-- **One fixed-window check.** Under the lock the twin goes through the same steps, with the other label at a quota
denial. -/
theorem checkLocked_twin (clock : Panics Duration) (check : Check FixedWindowPolicy) (shardIndex : ℕ)
    (shard : Shard WindowEntry) :
    checkLocked config clock check.twin shardIndex shard =
      (checkLocked config clock check shardIndex shard).map fun p => (p.1.relabel Decision.relabel, p.2) := by
  unfold checkLocked
  simp only [prepare_twin, Check.counterKey_twin, Check.quotaMode_twin, Decision.quotaExceeded_flip]
  cases clock with
  | error panic => rfl
  | ok reading =>
    simp only [except_ok_bind]
    cases hprune : ((shard.recordObservedMillis (max reading.asMillis shard.latestObservedMillis)).pruneExpired
      (max reading.asMillis shard.latestObservedMillis) config.maxExpiredRemovalsPerCheck) with
    | error panic => rfl
    | ok pruned =>
      obtain ⟨removed, shard'⟩ := pruned
      simp only [except_ok_bind]
      cases hquota : shard'.quotaDenial (prepare 0 check 0) (max reading.asMillis shard.latestObservedMillis) with
      | error panic => rfl
      | ok denial =>
        simp only [except_ok_bind]
        cases denial with
        | some denial => rfl
        | none =>
          simp only
          split
          · cases hfull : shard'.storageCapacityDenial (max reading.asMillis shard.latestObservedMillis) with
            | error panic => rfl
            | ok denial =>
              obtain ⟨retryAfter, rfl⟩ := Shard.storageCapacityDenial_storage hfull
              rfl
          · cases hconsume : shard'.consumeWindow (prepare 0 check 0) (max reading.asMillis shard.latestObservedMillis) with
            | error panic => rfl
            | ok consumed => rfl

/-- A fixed-window check of the twin leaves the same shards and relabels the answer. -/
theorem check_twin (clock : Panics Duration) (c : Check FixedWindowPolicy) (shards : BoundedShards config WindowEntry) :
    check clock c.twin shards =
      ((check clock c shards).1.map (·.map Decision.relabel), (check clock c shards).2) := by
  unfold check checkInner
  simp only [Check.counterKey_twin, checkLocked_twin]
  cases shards.lockShard (config.shardIndex c.counterKey) with
  | error error => rfl
  | ok guard =>
    simp only
    cases checkLocked config clock c guard (shards.data guard) with
    | error panic => rfl
    | ok p => rfl

/-- The preflight of a batch of twins stops at the same check, with the label of the other mode. -/
theorem preflight_twin {n : ℕ} (checks : List (Check FixedWindowPolicy)) (locked : List (Fin n))
    (data : Fin n → Shard WindowEntry) (nowMillis : ℕ) {prepared : List PreparedWindowCheck} : ∀ {pending : List ℕ},
    preflight (checks.map Check.twin) locked data nowMillis pending prepared =
      (preflight checks locked data nowMillis pending prepared).map (·.map BatchDecision.relabel) := by
  induction prepared with
  | nil => exact fun {_} => rfl
  | cons check rest ih =>
    intro pending
    unfold preflight
    simp only [List.length_map, indexed_map, ih]
    cases indexed locked check.shardPosition with
    | error panic => rfl
    | ok index =>
      simp only [except_ok_bind]
      cases (data index).quotaDenial check nowMillis with
      | error panic => rfl
      | ok denial =>
        simp only [except_ok_bind]
        cases denial with
        | some denial =>
          simp only
          cases indexed checks check.inputIndex with
          | error panic => rfl
          | ok c =>
            -- the one place where the mode is read
            change (expectOk _ (BatchDecision.quotaExceeded c.twin.quotaMode _ _ _) >>= _) =
              (expectOk _ (BatchDecision.quotaExceeded c.quotaMode _ _ _) >>= _).map _
            rw [Check.quotaMode_twin, BatchDecision.quotaExceeded_flip, expectOk_map]
            cases expectOk "a prepared check's input index is below the batch size"
              (BatchDecision.quotaExceeded c.quotaMode check.inputIndex checks.length denial) with
            | error panic => rfl
            | ok decision => rfl
        | none =>
          simp only
          by_cases hkey : (data index).containsKey check.counterKey = true
          · rw [if_pos hkey, if_pos hkey]
          · rw [if_neg hkey, if_neg hkey]
            cases indexed pending check.shardPosition with
            | error panic => rfl
            | ok inserted =>
              simp only [except_ok_bind]
              cases addUsize (data index).used inserted with
              | error panic => rfl
              | ok projected =>
                simp only [except_ok_bind]
                by_cases hfull : (data index).capacity ≤ projected
                · rw [if_pos hfull, if_pos hfull]
                  cases hdenial : (data index).storageCapacityDenial nowMillis with
                  | error panic => rfl
                  | ok denial =>
                    obtain ⟨retryAfter, rfl⟩ := Shard.storageCapacityDenial_storage hdenial
                    simp only [except_ok_bind]
                    conv_lhs => rw [← BatchDecision.denied_storage, expectOk_map]
                    cases expectOk "a prepared check's input index is below the batch size"
                      (BatchDecision.denied check.inputIndex checks.length (.storageCapacity retryAfter)) with
                    | error panic => rfl
                    | ok decision => rfl
                · rw [if_neg hfull, if_neg hfull]
                  cases addUsize inserted 1 with
                  | error panic => rfl
                  | ok inserted => rfl

/-- A batch of twins under the locks: the same cleanup, the same consumption, the relabelled decision. -/
theorem checkAllLocked_twin {n : ℕ} (removals : ℕ) (clock : Panics Duration) (checks : List (Check FixedWindowPolicy))
    (topology : BatchTopology n) (prepared : List PreparedWindowCheck) (locked : List (Fin n))
    (data : Fin n → Shard WindowEntry) :
    checkAllLocked removals clock (checks.map Check.twin) topology prepared locked data =
      (checkAllLocked removals clock checks topology prepared locked data).map
        fun p => (p.1.relabel BatchDecision.relabel, p.2) := by
  unfold checkAllLocked
  simp only [preflight_twin]
  cases clock with
  | error panic => rfl
  | ok reading =>
    simp only [except_ok_bind]
    generalize locked.foldl (fun now index => max now (data index).latestObservedMillis) reading.asMillis = nowMillis
    cases cleanupLocked removals nowMillis (locked.zip topology.checkCounts) data with
    | error panic => rfl
    | ok cleaned =>
      obtain ⟨effects, data⟩ := cleaned
      simp only [except_ok_bind]
      cases preflight checks locked data nowMillis (List.replicate locked.length 0) prepared with
      | error panic => rfl
      | ok denial =>
        cases denial with
        | some decision =>
          -- a denial leaves what the cleanup has left
          change (collectShardEffects data locked effects >>= _) = (collectShardEffects data locked effects >>= _).map _
          cases collectShardEffects data locked effects with
          | error panic => rfl
          | ok collected => rfl
        | none =>
          -- an allowance has no label
          change (consumeAll locked nowMillis prepared data >>= _) = (consumeAll locked nowMillis prepared data >>= _).map _
          cases consumeAll locked nowMillis prepared data with
          | error panic => rfl
          | ok consumed =>
            obtain ⟨allowances, data⟩ := consumed
            simp only [except_ok_bind]
            unfold BatchDecision.allowed
            cases allowances with
            | nil => rfl
            | cons allowance allowances =>
              change (collectShardEffects data locked effects >>= _) = (collectShardEffects data locked effects >>= _).map _
              cases collectShardEffects data locked effects with
              | error panic => rfl
              | ok collected => rfl

/-- A batch of twins is prepared alike. -/
theorem prepareAll_twin {n : ℕ} (topology : BatchTopology n) (checks : List (Check FixedWindowPolicy)) :
    ((checks.map Check.twin).zipIdx.mapM fun p => do return prepare p.2 p.1 (← topology.shardPosition p.2)) =
      checks.zipIdx.mapM fun p => do return prepare p.2 p.1 (← topology.shardPosition p.2) := by
  rw [List.zipIdx_map, List.mapM_map]
  simp only [Function.comp_def, Prod.map, prepare_twin, id_eq]

/-- **A fixed-window batch.** The twins take the same shards and leave the same entries; the decision is relabelled.
-/
theorem checkAll_twin (clock : Panics Duration) (checks : List (Check FixedWindowPolicy))
    (shards : BoundedShards config WindowEntry) :
    checkAll clock (checks.map Check.twin) shards =
      ((checkAll clock checks shards).1.map fun r => (r.map BatchDecision.relabel).mapError MemoryBatchError.relabel,
        (checkAll clock checks shards).2) := by
  have hindexes : (checks.map Check.twin).map (fun check => config.shardIndex check.counterKey) =
      checks.map fun check => config.shardIndex check.counterKey := by
    rw [List.map_map]
    exact List.map_congr_left fun check _ => by simp
  unfold checkAll checkAllInner
  simp only [validateBatch_twin, hindexes, prepareAll_twin, checkAllLocked_twin]
  cases validateBatch checks config.maxBatchSize with
  | error error => rfl
  | ok valid =>
    simp only [Except.mapError]
    cases hrouted : BatchTopology.new config (checks.map fun check => config.shardIndex check.counterKey) with
    | error panic => rfl
    | ok routed =>
      cases routed with
      | error error =>
        -- a batch that no topology routes has no label
        obtain ⟨shardIndex, keyCount, capacity, rfl⟩ := topology_new_error hrouted
        rfl
      | ok topology =>
        simp only
        cases checks.zipIdx.mapM fun p => do return prepare p.2 p.1 (← topology.shardPosition p.2) with
        | error panic => rfl
        | ok prepared =>
          simp only
          cases shards.lockTopology topology with
          | error error => rfl
          | ok locked =>
            simp only
            cases checkAllLocked config.maxExpiredRemovalsPerCheck clock checks topology prepared locked shards.data with
            | error panic => rfl
            | ok p => rfl
end MemoryStore

/-! ## The GCRA store -/

namespace GcraStore

variable [Sha2] {config : MemoryStoreConfig}

/-- The prepared twin of a check. -/
def twinPrepared (prepared : PreparedGcraCheck) : PreparedGcraCheck :=
  { prepared with check := prepared.check.twin, quotaMode := prepared.quotaMode.flip }

@[simp]
theorem twinPrepared_shardPosition (prepared : PreparedGcraCheck) :
    (twinPrepared prepared).shardPosition = prepared.shardPosition := rfl

@[simp]
theorem twinPrepared_counterKey (prepared : PreparedGcraCheck) :
    (twinPrepared prepared).counterKey = prepared.counterKey := rfl

@[simp]
theorem twinPrepared_inputIndex (prepared : PreparedGcraCheck) :
    (twinPrepared prepared).inputIndex = prepared.inputIndex := rfl

@[simp]
theorem twinPrepared_quotaMode (prepared : PreparedGcraCheck) :
    (twinPrepared prepared).quotaMode = prepared.quotaMode.flip := rfl

/-- A prepared GCRA check holds its check and the mode, and differs from its twin in both. -/
theorem prepare_twin (inputIndex : ℕ) (check : Check GcraPolicy) (shardPosition : ℕ) :
    prepare inputIndex check.twin shardPosition = twinPrepared (prepare inputIndex check shardPosition) := by
  unfold prepare twinPrepared
  rw [Check.counterKey_twin, Check.quotaMode_twin]

/-- An evaluation reads no mode. -/
theorem evaluate_twin (shard : Shard GcraEntry) (prepared : PreparedGcraCheck) (nowMillis : ℕ) :
    shard.evaluate (twinPrepared prepared) nowMillis = shard.evaluate prepared nowMillis := rfl

theorem consumeGcra_twin (shard : Shard GcraEntry) (prepared : PreparedGcraCheck) (allowance : Gcra.PendingAllowance) :
    shard.consumeGcra (twinPrepared prepared) allowance = shard.consumeGcra prepared allowance := rfl

/-- **One GCRA check.** Under the lock the twin goes through the same steps, with the other label at a quota denial.
-/
theorem checkLocked_twin (clock : Panics Duration) (check : Check GcraPolicy) (shardIndex : ℕ) (shard : Shard GcraEntry) :
    checkLocked config clock check.twin shardIndex shard =
      (checkLocked config clock check shardIndex shard).map
        fun p => (p.1.map (·.relabel Decision.relabel), p.2) := by
  unfold checkLocked
  simp only [prepare_twin, Check.counterKey_twin, evaluate_twin, consumeGcra_twin]
  cases clock with
  | error panic => rfl
  | ok reading =>
    simp only [except_ok_bind]
    generalize max reading.asMillis shard.latestObservedMillis = nowMillis
    cases shard.evaluate (prepare 0 check 0) nowMillis with
    | error overflow => rfl
    | ok evaluated =>
      simp only
      cases (shard.recordObservedMillis nowMillis).pruneExpired nowMillis config.maxExpiredRemovalsPerCheck with
      | error panic => rfl
      | ok pruned =>
        obtain ⟨removed, shard⟩ := pruned
        simp only [except_ok_bind]
        cases evaluated with
        | denied denial =>
          -- the one place where the mode is read
          change Except.ok (Except.ok _, _) = Except.ok (Except.ok _, _)
          change Except.ok (Except.ok (⟨Decision.quotaExceeded check.quotaMode.flip denial, _⟩ : Evaluation Decision ShardEffect), _) = _
          rw [Decision.quotaExceeded_flip]
          rfl
        | allowed allowance =>
          simp only
          split
          · cases hfull : shard.storageCapacityDenial nowMillis with
            | error panic => rfl
            | ok denial =>
              -- a storage denial has no label
              obtain ⟨retryAfter, rfl⟩ := Shard.storageCapacityDenial_storage hfull
              rfl
          · cases shard.consumeGcra (prepare 0 check 0) allowance with
            | error panic => rfl
            | ok consumed => rfl

/-- A GCRA check of the twin leaves the same shards and relabels the answer; an overflow is the same error. -/
theorem check_twin (clock : Panics Duration) (c : Check GcraPolicy) (shards : BoundedShards config GcraEntry) :
    check clock c.twin shards =
      ((check clock c shards).1.map (·.map Decision.relabel), (check clock c shards).2) := by
  unfold check checkInner
  simp only [Check.counterKey_twin, checkLocked_twin]
  cases shards.lockShard (config.shardIndex c.counterKey) with
  | error error => rfl
  | ok guard =>
    simp only
    cases checkLocked config clock c guard (shards.data guard) with
    | error panic => rfl
    | ok p =>
      obtain ⟨result, shard⟩ := p
      cases result with
      | error overflow => rfl
      | ok evaluation => rfl

section Batch

variable {n : ℕ}

/-- The evaluations of a batch of twins are those of the batch. -/
theorem evaluateAll_twin (locked : List (Fin n)) (data : Fin n → Shard GcraEntry) (nowMillis : ℕ)
    (prepared : List PreparedGcraCheck) :
    evaluateAll locked data nowMillis (prepared.map twinPrepared) = evaluateAll locked data nowMillis prepared := by
  induction prepared with
  | nil => rfl
  | cons check rest ih =>
    rw [List.map_cons]
    unfold evaluateAll
    simp only [evaluate_twin, ih]
    rfl

/-- The prepared twin, with what was evaluated for it. -/
def twinPair {α : Type} (p : PreparedGcraCheck × α) : PreparedGcraCheck × α := (twinPrepared p.1, p.2)

/-- The preflight of evaluated twins stops at the same check, with the label of the other mode. -/
theorem preflight_twin (batchSize : ℕ) (locked : List (Fin n)) (data : Fin n → Shard GcraEntry) (nowMillis : ℕ)
    {evaluated : List (PreparedGcraCheck × Gcra.QuotaEvaluation)} : ∀ {pending : List ℕ},
    preflight batchSize locked data nowMillis pending (evaluated.map twinPair) =
      (preflight batchSize locked data nowMillis pending evaluated).map (·.mapError BatchDecision.relabel) := by
  induction evaluated with
  | nil => exact fun {_} => rfl
  | cons p rest ih =>
    intro pending
    obtain ⟨check, evaluation⟩ := p
    have hcons : ((check, evaluation) :: rest).map twinPair = (twinPrepared check, evaluation) :: rest.map twinPair := rfl
    rw [hcons]
    unfold preflight
    simp only [twinPrepared_shardPosition, twinPrepared_counterKey, twinPrepared_inputIndex, twinPrepared_quotaMode,
      BatchDecision.quotaExceeded_flip, expectOk_map, ih]
    cases indexed locked check.shardPosition with
    | error panic => rfl
    | ok index =>
      simp only [except_ok_bind]
      cases evaluation with
      | denied denial =>
        simp only
        cases expectOk "a prepared check's input index is below the batch size"
          (BatchDecision.quotaExceeded check.quotaMode check.inputIndex batchSize denial) with
        | error panic => rfl
        | ok decision => rfl
      | allowed allowance =>
        simp only
        by_cases hkey : (data index).containsKey check.counterKey = true
        · simp only [hkey, if_true]
          cases preflight batchSize locked data nowMillis pending rest with
          | error panic => rfl
          | ok result =>
            cases result with
            | error decision => rfl
            | ok allowances => rfl
        · simp only [hkey, Bool.false_eq_true, if_false]
          cases indexed pending check.shardPosition with
          | error panic => rfl
          | ok inserted =>
            simp only [except_ok_bind]
            cases addUsize (data index).used inserted with
            | error panic => rfl
            | ok projected =>
              simp only [except_ok_bind]
              by_cases hfull : (data index).capacity ≤ projected
              · rw [if_pos hfull, if_pos hfull]
                cases hdenial : (data index).storageCapacityDenial nowMillis with
                | error panic => rfl
                | ok denial =>
                  obtain ⟨retryAfter, rfl⟩ := Shard.storageCapacityDenial_storage hdenial
                  simp only [except_ok_bind]
                  conv_lhs => rw [← BatchDecision.denied_storage, expectOk_map]
                  cases expectOk "a prepared check's input index is below the batch size"
                    (BatchDecision.denied check.inputIndex batchSize (.storageCapacity retryAfter)) with
                  | error panic => rfl
                  | ok decision => rfl
              · rw [if_neg hfull, if_neg hfull]
                cases addUsize inserted 1 with
                | error panic => rfl
                | ok inserted =>
                  simp only [except_ok_bind]
                  cases preflight batchSize locked data nowMillis (pending.set check.shardPosition inserted) rest with
                  | error panic => rfl
                  | ok result =>
                    cases result with
                    | error decision => rfl
                    | ok allowances => rfl

/-- Consuming the twins writes the same entries. -/
theorem consumeAll_twin (locked : List (Fin n)) {pending : List (PreparedGcraCheck × Gcra.PendingAllowance)} :
    ∀ {data : Fin n → Shard GcraEntry}, consumeAll locked (pending.map twinPair) data = consumeAll locked pending data := by
  induction pending with
  | nil => exact fun {_} => rfl
  | cons p rest ih =>
    intro data
    obtain ⟨check, allowance⟩ := p
    have hcons : ((check, allowance) :: rest).map twinPair = (twinPrepared check, allowance) :: rest.map twinPair := rfl
    rw [hcons]
    unfold consumeAll
    simp only [twinPrepared_shardPosition, consumeGcra_twin, ih]

theorem zip_twin {α : Type} (prepared : List PreparedGcraCheck) (l : List α) :
    (prepared.map twinPrepared).zip l = (prepared.zip l).map twinPair := by
  rw [List.zip_map_left]
  rfl

/-- A GCRA batch of twins under the locks: the same evaluations, cleanup and consumption, the relabelled decision. -/
theorem checkAllLocked_twin (removals : ℕ) (clock : Panics Duration) (batchSize : ℕ) (topology : BatchTopology n)
    (prepared : List PreparedGcraCheck) (locked : List (Fin n)) (data : Fin n → Shard GcraEntry) :
    checkAllLocked removals clock batchSize topology (prepared.map twinPrepared) locked data =
      (checkAllLocked removals clock batchSize topology prepared locked data).map
        fun p => (p.1.map (·.relabel BatchDecision.relabel), p.2) := by
  unfold checkAllLocked
  simp only [evaluateAll_twin, zip_twin, preflight_twin, consumeAll_twin]
  cases clock with
  | error panic => rfl
  | ok reading =>
    simp only [except_ok_bind]
    generalize locked.foldl (fun now index => max now (data index).latestObservedMillis) reading.asMillis = nowMillis
    cases evaluateAll locked data nowMillis prepared with
    | error panic => rfl
    | ok evaluated =>
      simp only [except_ok_bind]
      cases evaluated with
      | error overflow => rfl
      | ok evaluations =>
        simp only
        cases cleanupLocked removals nowMillis (locked.zip topology.checkCounts) data with
        | error panic => rfl
        | ok cleaned =>
          obtain ⟨effects, data⟩ := cleaned
          simp only [except_ok_bind]
          cases preflight batchSize locked data nowMillis (List.replicate locked.length 0)
            (prepared.zip evaluations) with
          | error panic => rfl
          | ok result =>
            cases result with
            | error decision =>
              -- a denial leaves what the cleanup has left
              change (collectShardEffects data locked effects >>= _) = (collectShardEffects data locked effects >>= _).map _
              cases collectShardEffects data locked effects with
              | error panic => rfl
              | ok collected => rfl
            | ok allowances =>
              -- an allowance has no label
              change (consumeAll locked (prepared.zip allowances) data >>= _) =
                (consumeAll locked (prepared.zip allowances) data >>= _).map _
              cases consumeAll locked (prepared.zip allowances) data with
              | error panic => rfl
              | ok consumed =>
                obtain ⟨allowances, data⟩ := consumed
                simp only [except_ok_bind]
                unfold BatchDecision.allowed
                cases allowances with
                | nil => rfl
                | cons allowance allowances =>
                  change (collectShardEffects data locked effects >>= _) =
                    (collectShardEffects data locked effects >>= _).map _
                  cases collectShardEffects data locked effects with
                  | error panic => rfl
                  | ok collected => rfl

/-- A batch of twins is prepared to the twins of what the batch is prepared to. -/
theorem prepareAll_twin (topology : BatchTopology n) {checks : List (Check GcraPolicy × ℕ)} :
    (checks.map (Prod.map Check.twin id)).mapM (fun p =>
      (do return prepare p.2 p.1 (← topology.shardPosition p.2) : Panics PreparedGcraCheck)) =
    (checks.mapM fun p => (do return prepare p.2 p.1 (← topology.shardPosition p.2) : Panics PreparedGcraCheck)).map
      (List.map twinPrepared) := by
  induction checks with
  | nil => rfl
  | cons p rest ih =>
    rw [List.map_cons, List.mapM_cons, List.mapM_cons, ih]
    generalize rest.mapM (fun p => (do return prepare p.2 p.1 (← topology.shardPosition p.2) :
      Panics PreparedGcraCheck)) = tail
    simp only [Prod.map, id_eq, prepare_twin]
    cases topology.shardPosition p.2 with
    | error panic => rfl
    | ok position =>
      cases tail with
      | error panic => rfl
      | ok prepared => rfl

end Batch

/-- **A GCRA batch.** The twins take the same shards and leave the same entries; the decision is relabelled. -/
theorem checkAll_twin (clock : Panics Duration) (checks : List (Check GcraPolicy))
    (shards : BoundedShards config GcraEntry) :
    checkAll clock (checks.map Check.twin) shards =
      ((checkAll clock checks shards).1.map fun r => (r.map BatchDecision.relabel).mapError GcraBatchError.relabel,
        (checkAll clock checks shards).2) := by
  have hindexes : (checks.map Check.twin).map (fun check => config.shardIndex check.counterKey) =
      checks.map fun check => config.shardIndex check.counterKey := by
    rw [List.map_map]
    exact List.map_congr_left fun check _ => by simp
  unfold checkAll checkAllInner
  simp only [validateBatch_twin, hindexes, List.zipIdx_map, prepareAll_twin, List.length_map]
  cases validateBatch checks config.maxBatchSize with
  | error error => rfl
  | ok valid =>
    simp only [Except.mapError]
    cases hrouted : BatchTopology.new config (checks.map fun check => config.shardIndex check.counterKey) with
    | error panic => rfl
    | ok routed =>
      cases routed with
      | error error =>
        -- a batch that no topology routes has no label
        obtain ⟨shardIndex, keyCount, capacity, rfl⟩ := topology_new_error hrouted
        rfl
      | ok topology =>
        simp only
        cases checks.zipIdx.mapM fun p => (do return prepare p.2 p.1 (← topology.shardPosition p.2) :
          Panics PreparedGcraCheck) with
        | error panic => rfl
        | ok prepared =>
          simp only [Except.map]
          cases shards.lockTopology topology with
          | error error => rfl
          | ok locked =>
            simp only [checkAllLocked_twin]
            cases checkAllLocked config.maxExpiredRemovalsPerCheck clock checks.length topology prepared locked
              shards.data with
            | error panic => rfl
            | ok p =>
              obtain ⟨result, data⟩ := p
              cases result with
              | error overflow => rfl
              | ok evaluation => rfl

end GcraStore

/-! ## Runs -/

/-- An admission by the fixed-window store only relabels. -/
theorem MemoryStore.tryAdmit_twin [Sha2] {config : MemoryStoreConfig} (clock : Panics Duration)
    (request : Request FixedWindowPolicy) (shards : BoundedShards config WindowEntry) :
    MemoryStore.tryAdmit clock request.twin shards =
      ((MemoryStore.tryAdmit clock request shards).1.relabel, (MemoryStore.tryAdmit clock request shards).2) := by
  cases request with
  | check c =>
    unfold Request.twin MemoryStore.tryAdmit
    simp only [MemoryStore.check_twin]
    cases (MemoryStore.check clock c shards).1 with
    | panicked => rfl
    | returned result =>
      cases result with
      | error error => rfl
      | ok decision => rfl
  | checkAll checks =>
    unfold Request.twin MemoryStore.tryAdmit
    simp only [MemoryStore.checkAll_twin]
    cases (MemoryStore.checkAll clock checks shards).1 with
    | panicked => rfl
    | returned result =>
      cases result with
      | error error => rfl
      | ok decision => rfl

/-- An admission by the GCRA store only relabels. -/
theorem GcraStore.tryAdmit_twin [Sha2] {config : MemoryStoreConfig} (clock : Panics Duration)
    (request : Request GcraPolicy) (shards : BoundedShards config GcraEntry) :
    GcraStore.tryAdmit clock request.twin shards =
      ((GcraStore.tryAdmit clock request shards).1.relabel, (GcraStore.tryAdmit clock request shards).2) := by
  cases request with
  | check c =>
    unfold Request.twin GcraStore.tryAdmit
    simp only [GcraStore.check_twin]
    rfl
  | checkAll checks =>
    unfold Request.twin GcraStore.tryAdmit
    simp only [GcraStore.checkAll_twin]
    rfl

/-- The interface of a store, given that its admission only relabels. -/
theorem performWith_twin {P E : Type} [RateLimitPolicy P] [HasTwin P] {config : MemoryStoreConfig}
    {tryAdmit : Panics Duration → Request P → BoundedShards config E → Response × BoundedShards config E}
    (htwin : ∀ clock request shards, tryAdmit clock request.twin shards =
      ((tryAdmit clock request shards).1.relabel, (tryAdmit clock request shards).2))
    (request : StoreRequest P) (shards : BoundedShards config E) :
    performWith tryAdmit request.twin shards =
      ((performWith tryAdmit request shards).1.relabel, (performWith tryAdmit request shards).2) := by
  cases request with
  | clear => rfl
  | recoverPoisoned => rfl
  | tryAdmit clock request =>
    unfold StoreRequest.twin performWith
    simp only [htwin]
    rfl

/-- **Shadow mode only relabels.** Take a run of a memory store from any state, and the same run with the
quota mode of every policy flipped: the two end in the same state, and so does every prefix of them,
and their responses are the same but for the label of a quota denial, which is enforced in the one
and only reported in the other, and for the modes a `MixedQuotaModes` error names. -/
theorem shadow_relabels [Sha2] (config : MemoryStoreConfig) :
    (∀ (shards : BoundedShards config WindowEntry) (requests : List (StoreRequest FixedWindowPolicy)),
      Machine.outputs MemoryStore.perform shards (requests.map StoreRequest.twin) =
          (Machine.outputs MemoryStore.perform shards requests).map StoreResponse.relabel ∧
        Machine.final MemoryStore.perform shards (requests.map StoreRequest.twin) =
          Machine.final MemoryStore.perform shards requests) ∧
    (∀ (shards : BoundedShards config GcraEntry) (requests : List (StoreRequest GcraPolicy)),
      Machine.outputs GcraStore.perform shards (requests.map StoreRequest.twin) =
          (Machine.outputs GcraStore.perform shards requests).map StoreResponse.relabel ∧
        Machine.final GcraStore.perform shards (requests.map StoreRequest.twin) =
          Machine.final GcraStore.perform shards requests) :=
  ⟨Machine.run_relabel (performWith_twin MemoryStore.tryAdmit_twin),
    Machine.run_relabel (performWith_twin GcraStore.tryAdmit_twin)⟩

end Runlimit
