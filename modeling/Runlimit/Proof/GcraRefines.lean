import Runlimit.Proof.Locked
import Runlimit.Spec.Run

/-!
# The GCRA store is the bounded store

`GcraStore.check` and `GcraStore.checkAll` never unwind on their own and compute the bounded
store's operations over the exact GCRA transition (`check_eq`, `checkAll_eq`), as long as no
lock they need is poisoned. Nothing has to be assumed about the stored arrival times: the
store checks its arithmetic before it changes anything.
-/

namespace Runlimit

open BatchTopology Gcra

namespace GcraStore

variable [Sha2] {config : MemoryStoreConfig} {shards : BoundedShards config GcraEntry}
  {c : Check GcraPolicy} {checks : List (Check GcraPolicy)} {reading : Duration}

/-! ## One shard -/

/-- The evaluation reads the live entry. -/
theorem evaluate_eq (c : Check GcraPolicy) (s : Shard GcraEntry) (now k pos : ℕ) :
    (s.evaluate (prepare k c pos) now).map gcraVerdict = gcra.evaluate c now (s.live c.counterKey now) := by
  unfold Shard.evaluate prepare
  simp only [Shard.activeEntry_eq, Option.map_map]
  rfl

/-- `consume` stores the arrival time of the pending allowance. -/
theorem consumeGcra_eq {s : Shard GcraEntry} (hs : s.Indexed) (c : Check GcraPolicy) (k pos : ℕ) (p : PendingAllowance) :
    s.consumeGcra (prepare k c pos) p =
      .ok (p.allowance, s.put c.counterKey ⟨⟨p.tatScaled⟩, p.expiresAtMillis⟩) := by
  unfold Shard.consumeGcra prepare
  simp only [Shard.replace_eq hs, except_ok_bind]
  rfl

/-! ## Single checks -/

/-- What `check_inner` does to its shard is what the bounded store does to it. -/
theorem checkLocked_eq (reading : Duration) {data : Bounded.Data config GcraEntry} (hd : Bounded.Inv data) (index : ℕ) :
    ∃ result shard,
      checkLocked config (.ok reading) c index (data (c.shard config)) = .ok (result, shard) ∧
      Bounded.check gcra (clampedMillis (Bounded.observed data) [c] reading) c data =
        (result.map (·.value), Function.update data (c.shard config) shard) := by
  set i := c.shard config with hi
  rw [show clampedMillis (Bounded.observed data) [c] reading =
    max reading.asMillis (data i).latestObservedMillis from clampedMillis_singleton]
  set now := max reading.asMillis (data i).latestObservedMillis with hnow
  have hle : (data i).latestObservedMillis ≤ now := le_max_right _ _
  have hmax : now ≤ maxMillis := max_le reading.asMillis_le (hd.shard i).observed_le
  have hrecord := (hd.shard i).record hle hmax
  set cleaned := Shard.prune now config.maxExpiredRemovalsPerCheck ((data i).recordObservedMillis now)
    with hcleaned
  obtain ⟨hinv, hpruned⟩ := Shard.prune_spec now config.maxExpiredRemovalsPerCheck hrecord
  rw [← hcleaned] at hinv hpruned
  have hobs : cleaned.latestObservedMillis = now := hpruned.observed_eq
  have hevaluate := evaluate_eq c (data i) now 0 0
  unfold checkLocked Bounded.check
  simp only [except_ok_bind, ← hnow, ← hi, Bounded.cleanup_singleton,
    Shard.pruneExpired_eq now _ hrecord, ← hcleaned]
  rw [show Bounded.entry now data c = (data i).live c.counterKey now from rfl, ← hevaluate]
  cases hev : (data i).evaluate (prepare 0 c 0) now with
  | error e =>
    -- an overflow is returned before the cleanup: the shard stays as it is
    refine ⟨_, _, rfl, ?_⟩
    rw [Function.update_eq_self]
    rfl
  | ok evaluation =>
    cases evaluation with
    | denied d => exact ⟨_, _, rfl, rfl⟩
    | allowed p =>
      simp only [except_map_ok, gcraVerdict, Function.update_self]
      by_cases hfull : c.counterKey ∉ cleaned.entries.keys ∧ cleaned.capacity ≤ cleaned.used
      · -- a full shard is clean: its budget of at least one removal found nothing to remove
        have hclean : cleaned.Clean cleaned.latestObservedMillis := by
          rw [hobs]
          rcases Shard.prune_clean_or_slack hrecord now config.maxExpiredRemovalsPerCheck with h | h
          · exact h
          · have := config.removals_pos
            rw [← hcleaned] at h
            omega
        have hstorage := Shard.storageCapacityDenial_eq hinv hclean
        rw [hobs] at hstorage
        rw [if_pos hfull]
        simp only [if_pos (Shard.noRoom_iff.2 hfull), hstorage, except_ok_bind]
        exact ⟨_, _, rfl, rfl⟩
      · rw [if_neg hfull]
        simp only [if_neg (fun h => hfull (Shard.noRoom_iff.1 h)), consumeGcra_eq hinv.toIndexed,
          except_ok_bind]
        refine ⟨_, _, rfl, ?_⟩
        rw [Function.update_idem]
        rfl

/-- **A single check is the bounded store's check.** -/
theorem check_eq (reading : Duration) (hd : Bounded.Inv shards.data) (hpoison : (shards (c.shard config)).poisoned = false) :
    ∃ result data,
      Bounded.check gcra (clampedMillis shards.observed [c] reading) c shards.data = (result, data) ∧
      check (.ok reading) c shards =
        (.returned (result.mapError fun _ => .arithmeticOverflow), shards.unlock data) := by
  obtain ⟨result, shard, hlocked, hbounded⟩ := checkLocked_eq reading hd (c.shard config)
  refine ⟨_, _, hbounded, ?_⟩
  unfold check checkInner
  have hlock : shards.lockShard (config.shardIndex c.counterKey) = .ok (c.shard config) :=
    if_neg (by rw [Bool.not_eq_true]; exact hpoison)
  simp only [hlock, hlocked]
  cases result with
  | error e => rfl
  | ok evaluation => rfl

/-! ## Atomic batches -/

section Batch

variable {data : Bounded.Data config GcraEntry} {now : ℕ}

/-- The verdicts of evaluated checks. -/
def verdicts (evaluated : List (Check GcraPolicy × QuotaEvaluation)) :
    List (Check GcraPolicy × Verdict GcraEntry) :=
  evaluated.map fun p => (p.1, gcraVerdict p.2)

theorem verdicts_cons (p : Check GcraPolicy × QuotaEvaluation)
    (rest : List (Check GcraPolicy × QuotaEvaluation)) :
    verdicts (p :: rest) = (p.1, gcraVerdict p.2) :: verdicts rest := rfl

/-- The prepared checks of a part of the batch, from its input index on. -/
def preparedFrom (config : MemoryStoreConfig) (checks : List (Check GcraPolicy)) (k : ℕ)
    (rest : List (Check GcraPolicy)) : List PreparedGcraCheck :=
  (rest.zipIdx k).map fun p => prepare p.2 p.1 (BoundedShards.guardPosition config checks p.1)

theorem preparedFrom_cons (k : ℕ) (c : Check GcraPolicy) (rest : List (Check GcraPolicy)) :
    preparedFrom config checks k (c :: rest) =
      prepare k c (BoundedShards.guardPosition config checks c) :: preparedFrom config checks (k + 1) rest := by
  unfold preparedFrom
  rw [List.zipIdx_cons, List.map_cons]

/-- The evaluation loop gives the verdicts of the checks, or the overflow of one of them. -/
theorem evaluateAll_eq (data : Bounded.Data config GcraEntry) (now : ℕ) :
    ∀ (rest : List (Check GcraPolicy)) (k : ℕ), (∀ c ∈ rest, c ∈ checks) →
      ∃ evaluated : Except ArithmeticOverflow (List (Check GcraPolicy × QuotaEvaluation)),
        evaluateAll (BoundedShards.guards config checks) data now (preparedFrom config checks k rest) =
          .ok (evaluated.map fun l => l.map Prod.snd) ∧
        Runlimit.evaluateAll gcra now (Bounded.entry now data) rest = evaluated.map verdicts ∧
        ∀ l, evaluated = .ok l → l.map Prod.fst = rest := by
  intro rest
  induction rest with
  | nil =>
    intro k _
    refine ⟨.ok [], rfl, rfl, ?_⟩
    intro l hl
    cases hl
    rfl
  | cons c rest ih =>
    intro k hmem
    rw [List.forall_mem_cons] at hmem
    obtain ⟨evaluated, hcode, hspec, hfst⟩ := ih (k + 1) hmem.2
    have hev := evaluate_eq c (data (c.shard config)) now k
      (BoundedShards.guardPosition config checks c)
    rw [preparedFrom_cons]
    unfold evaluateAll Runlimit.evaluateAll
    unfold Runlimit.evaluateAll at hspec
    rw [List.mapM_cons, hspec, show Bounded.entry now data c =
      (data (c.shard config)).live c.counterKey now from rfl, ← hev]
    simp only [prepare] at hev ⊢
    rw [BoundedShards.indexed_guard hmem.1, except_ok_bind, hcode]
    cases (data (c.shard config)).evaluate
      ⟨k, c.counterKey, BoundedShards.guardPosition config checks c, c, c.quotaMode⟩ now with
    | error e =>
      refine ⟨.error e, rfl, rfl, ?_⟩
      intro l hl
      cases hl
    | ok evaluation =>
      -- the loop stops at the first overflow, and the later checks are not looked at
      cases evaluated with
      | error e =>
        refine ⟨.error e, rfl, rfl, ?_⟩
        intro l hl
        cases hl
      | ok l =>
        refine ⟨.ok ((c, evaluation) :: l), rfl, rfl, ?_⟩
        intro l' hl'
        cases hl'
        rw [List.map_cons, hfst l rfl]

/-- The pending allowances among evaluated checks. -/
def pendings (evaluated : List (Check GcraPolicy × QuotaEvaluation)) :
    List (Check GcraPolicy × PendingAllowance) :=
  evaluated.filterMap fun
    | (check, .allowed pending) => some (check, pending)
    | (_, .denied _) => none

/-- The preflight loop is the scan. A shard it finds full is clean, since the budget of the
batch covers every check routed to the shard. -/
theorem preflight_eq (hd : Bounded.Inv data) (hobs : ∀ c ∈ checks, Bounded.observed data (c.shard config) = now)
    (hbudget : ∀ c ∈ checks, (data (c.shard config)).Clean now ∨
      (data (c.shard config)).used + Bounded.budget config checks (c.shard config) ≤
        config.shardCapacity (c.shard config)) :
    ∀ (rest : List (Check GcraPolicy × QuotaEvaluation)) (k : ℕ) (byGuard : List ℕ)
      (byShard : Fin config.shardCount → ℕ), checks.drop k = rest.map Prod.fst →
      BoundedShards.Counts config checks byGuard byShard →
      (∀ i, byShard i + demand config (rest.map Prod.fst) i ≤ Bounded.budget config checks i) →
      (∀ i, (data i).used + byShard i ≤ config.shardCapacity i) →
      preflight checks.length (BoundedShards.guards config checks) data now byGuard
          ((preparedFrom config checks k (rest.map Prod.fst)).zip (rest.map Prod.snd)) =
        .ok (match scan config checks.length
          (fun key => decide (key ∈ (data (config.shardIndex key)).entries.keys))
          (fun i => (data i).used) (fun i => (data i).abs.full now) k byShard (verdicts rest) with
          | some outcome => .error ⟨outcome⟩
          | none => .ok ((pendings rest).map Prod.snd)) := by
  intro rest
  induction rest with
  | nil => intro k byGuard byShard _ _ _ _; rfl
  | cons p rest ih =>
    intro k byGuard byShard hdrop hcounts hpending hroom
    obtain ⟨c, evaluation⟩ := p
    rw [List.map_cons] at hdrop hpending
    simp only at hdrop hpending
    have hget : checks[k]? = some c := by
      rw [← List.head?_drop, hdrop]
      rfl
    have hdrop' : checks.drop (k + 1) = rest.map Prod.fst := by
      rw [← List.drop_drop, hdrop]
      rfl
    have hc : c ∈ checks := List.mem_of_getElem? hget
    have hk : k < checks.length := (List.getElem?_eq_some_iff.1 hget).1
    have hobs' : (data (c.shard config)).latestObservedMillis = now := hobs c hc
    -- a check that takes no slot leaves the demand of the rest as it was
    have hkeep := fun i => demand_skip (hpending i)
    rw [List.map_cons, List.map_cons, preparedFrom_cons, List.zip_cons_cons, verdicts_cons]
    unfold preflight scan
    simp only [prepare]
    rw [BoundedShards.indexed_guard hc, except_ok_bind]
    cases evaluation with
    | denied d =>
      simp only [batchQuotaExceeded_eq hk, expectOk_ok, except_ok_bind, gcraVerdict]
      rfl
    | allowed p =>
      simp only [Shard.containsKey_iff, decide_eq_true_eq, gcraVerdict]
      by_cases hin : c.counterKey ∈ (data (c.shard config)).entries.keys
      · rw [if_pos hin, if_pos (by exact hin), ih (k + 1) byGuard byShard hdrop' hcounts hkeep hroom,
          except_ok_bind]
        -- what the rest of the loop found is passed on, with this allowance before its allowances
        generalize scan _ _ _ _ _ _ _ (verdicts rest) = found
        cases found with
        | none => rfl
        | some outcome => rfl
      · -- a new key: the count at the guard's position is the count of its shard
        have hcount := hcounts _ _ (BoundedShards.getElem_guard config hc)
        have hcapacity := shardCapacity_le_usize config (c.shard config)
        have hprojected := (hroom (c.shard config)).trans hcapacity
        rw [if_neg hin, if_neg (by exact hin), indexed_eq hcount, except_ok_bind, addUsize_eq hprojected,
          except_ok_bind, hd.capacity_eq]
        by_cases hfull : config.shardCapacity (c.shard config) ≤
            (data (c.shard config)).used + byShard (c.shard config)
        · have hclean : (data (c.shard config)).Clean (data (c.shard config)).latestObservedMillis := by
            rw [hobs']
            rcases hbudget c hc with h | h
            · exact h
            · have := hpending (c.shard config)
              rw [demand_cons_self] at this
              omega
          have hstorage := Shard.storageCapacityDenial_eq (hd.shard _) hclean
          rw [hobs'] at hstorage
          rw [if_pos hfull, if_pos hfull, hstorage, except_ok_bind, batchDenied_eq hk, expectOk_ok]
          rfl
        · rw [if_neg hfull, if_neg hfull, addUsize_eq (by omega), except_ok_bind,
            ih (k + 1) _ _ hdrop' (hcounts.set hc _) (fun i => demand_count (hpending i)) (room_count hroom hfull),
            except_ok_bind]
          generalize scan _ _ _ _ _ _ _ (verdicts rest) = found
          cases found with
          | none => rfl
          | some outcome => rfl

/-- The verdict of a pending allowance. -/
def ofPending (p : Check GcraPolicy × PendingAllowance) : Check GcraPolicy × Verdict GcraEntry :=
  (p.1, gcraVerdict (.allowed p.2))

/-- If every check is allowed, every check has a pending allowance. -/
theorem pendings_of_allowed : ∀ {rest : List (Check GcraPolicy × QuotaEvaluation)},
    (∀ p ∈ verdicts rest, ∃ e a, p.2 = .allowed e a) →
    (pendings rest).map Prod.fst = rest.map Prod.fst ∧ verdicts rest = (pendings rest).map ofPending := by
  intro rest
  induction rest with
  | nil => intro _; exact ⟨rfl, rfl⟩
  | cons p rest ih =>
    intro h
    obtain ⟨c, evaluation⟩ := p
    rw [verdicts_cons, List.forall_mem_cons] at h
    obtain ⟨⟨e, a, hv⟩, hrest⟩ := h
    obtain ⟨hfst, hverdicts⟩ := ih hrest
    cases evaluation with
    -- a denied check among allowed ones: excluded
    | denied d => cases hv
    | allowed p =>
      have hcons : pendings ((c, .allowed p) :: rest) = (c, p) :: pendings rest := rfl
      rw [hcons, verdicts_cons, List.map_cons, List.map_cons, List.map_cons, hfst, hverdicts]
      exact ⟨rfl, rfl⟩

/-- The consumption loop stores the pending arrival times. -/
theorem consumeAll_eq : ∀ (rest : List (Check GcraPolicy × PendingAllowance)) (k : ℕ)
    (data : Bounded.Data config GcraEntry), (∀ p ∈ rest, p.1 ∈ checks) → (∀ i, (data i).Indexed) →
    (∀ p ∈ rest, Bounded.observed data (p.1.shard config) = now) → Bounded.Fits now (rest.map ofPending) →
    consumeAll (BoundedShards.guards config checks)
        ((preparedFrom config checks k (rest.map Prod.fst)).zip (rest.map Prod.snd)) data =
      .ok (allowances (rest.map ofPending), Bounded.putAll (rest.map ofPending) data) := by
  intro rest
  induction rest with
  | nil => intro k data _ _ _ _; rfl
  | cons p rest ih =>
    intro k data hmem hindexed hobs hfits
    obtain ⟨c, p⟩ := p
    rw [List.forall_mem_cons] at hmem hobs
    have hobs' : (data (c.shard config)).latestObservedMillis = now := hobs.1
    -- the stored expiry is within the portable window of now
    have hexp := (hfits (c, gcraVerdict (.allowed p)) List.mem_cons_self _ _ rfl).2
    have hrest := ih (k + 1) (Function.update data (c.shard config)
      ((data (c.shard config)).put c.counterKey ⟨⟨p.tatScaled⟩, p.expiresAtMillis⟩)) hmem.2 ?_ ?_
      (fun q hq => hfits q (List.mem_cons_of_mem _ hq))
    · have hconsume := consumeGcra_eq (hindexed (c.shard config)) c k
        (BoundedShards.guardPosition config checks c) p
      rw [List.map_cons, List.map_cons, preparedFrom_cons, List.zip_cons_cons]
      unfold consumeAll
      simp only [prepare] at hconsume hrest ⊢
      rw [BoundedShards.indexed_guard hmem.1, except_ok_bind, hconsume, except_ok_bind, hrest,
        except_ok_bind]
      rfl
    · intro i
      by_cases hi : i = c.shard config
      · rw [hi, Function.update_self]
        exact (hindexed _).put (by rw [hobs']; exact hexp)
      · rw [Function.update_of_ne hi]
        exact hindexed i
    · intro q hq
      rw [Bounded.observed_update_put]
      exact hobs.2 q hq

/-- **What a batch does under its locks is the bounded store's batch.** -/
theorem checkAllLocked_eq (hd : Bounded.Inv data)
    (hvalid : validateBatch checks config.maxBatchSize = .ok ())
    (hrouted : overfull config checks = none)
    (hnow : clampedMillis (Bounded.observed data) checks reading = now) :
    ∃ result data',
      checkAllLocked config.maxExpiredRemovalsPerCheck (.ok reading) checks.length
          (ofIndexes (checks.map (Check.shard config))) (preparedFrom config checks 0 checks)
          (BoundedShards.guards config checks) data = .ok (result, data') ∧
      Bounded.checkAll gcra now checks data =
        ((result.mapError fun _ => .arithmeticOverflow).map (·.value), data') := by
  have hle : ∀ i ∈ touched config checks, Bounded.observed data i ≤ now := by
    intro i hi
    rw [← hnow]
    exact le_clampedMillis hi
  have hmax : now ≤ maxMillis := by
    rw [← hnow]
    exact clampedMillis_le fun i => (hd.shard i).observed_le
  obtain ⟨effects, hlen, hcleanup⟩ := BoundedShards.cleanupLocked_eq hd hmax hle
  set cleaned := Bounded.cleanup (Bounded.budget config checks) (touched config checks) now data
    with hcleaned
  have hinv : Bounded.Inv cleaned := Bounded.cleanup_inv hd hmax hle
  have htouched : ∀ c ∈ checks, c.shard config ∈ touched config checks := fun c hc =>
    mem_touched.2 ⟨c, hc, rfl⟩
  have hobs : ∀ c ∈ checks, Bounded.observed cleaned (c.shard config) = now := fun c hc =>
    Bounded.cleanup_observed hd hmax hle (htouched c hc)
  obtain ⟨evaluated, hevaluate, hspec, hfst⟩ := evaluateAll_eq data now checks 0 fun _ h => h
  have hclamp := BoundedShards.clamp_eq checks (Bounded.observed data) reading
  unfold Bounded.observed at hclamp hnow
  unfold checkAllLocked Bounded.checkAll
  simp only [except_ok_bind, hclamp, hnow, hevaluate, hvalid, hrouted, hspec]
  cases evaluated with
  | error e => exact ⟨_, _, rfl, rfl⟩
  | ok l =>
    have hl := hfst l rfl
    have hpreflight := preflight_eq hinv hobs
      (fun c hc => Bounded.cleanup_clean_or_slack _ hd hmax hle (htouched c hc)) l 0 _ _
      (by rw [hl]; rfl) BoundedShards.Counts.zero
      (by intro i; rw [Nat.zero_add, hl]; exact Bounded.demand_le_budget hrouted i)
      (fun i => (hinv.shard i).used_le.trans_eq (hinv.capacity_eq i))
    rw [hl] at hpreflight
    simp only [except_map_ok, hcleanup, except_ok_bind, hpreflight]
    unfold Bounded.firstDenial
    rw [← hcleaned]
    cases hscan : scan config checks.length
        (fun key => decide (key ∈ (cleaned (config.shardIndex key)).entries.keys))
        (fun i => (cleaned i).used) (fun i => (cleaned i).abs.full now) 0 (fun _ => 0) (verdicts l) with
    | some outcome =>
      obtain ⟨shardEffects, hcollect⟩ := BoundedShards.collectShardEffects_eq cleaned hlen.symm
      simp only [hcollect, except_ok_bind]
      exact ⟨_, _, rfl, rfl⟩
    | none =>
      -- nothing was denied: every evaluation holds a pending allowance
      have hallowed := scan_none_allowed hscan
      obtain ⟨hfst', hpendings⟩ := pendings_of_allowed hallowed
      rw [hl] at hfst'
      have hfits := Bounded.evaluateAll_fits hd hle hspec
      have hmem : ∀ p ∈ pendings l, p.1 ∈ checks := by
        intro p hp
        rw [← hfst']
        exact List.mem_map_of_mem hp
      have hconsume := consumeAll_eq (pendings l) 0 cleaned hmem (fun i => (hinv.shard i).toIndexed)
        (fun p hp => hobs _ (hmem p hp)) (by rw [← hpendings]; exact hfits)
      rw [← hpendings, hfst'] at hconsume
      obtain ⟨shardEffects, hcollect⟩ := BoundedShards.collectShardEffects_eq
        (Bounded.putAll (verdicts l) cleaned) hlen.symm
      have hne : allowances (verdicts l) ≠ [] := by
        refine allowances_ne_nil hallowed ?_
        intro hnil
        refine (validateBatch_ok hvalid).1 ?_
        rw [← hl, List.map_eq_nil_iff]
        exact List.map_eq_nil_iff.1 hnil
      simp only [hconsume, except_ok_bind, batchAllowed_eq hne, expectOk_ok, hcollect]
      exact ⟨_, _, rfl, rfl⟩

end Batch

/-- **An atomic batch is the bounded store's batch.** -/
theorem checkAll_eq (checks : List (Check GcraPolicy)) (reading : Duration) (hd : Bounded.Inv shards.data)
    (hpoison : ∀ i ∈ touched config checks, (shards i).poisoned = false) :
    ∃ result data,
      Bounded.checkAll gcra (clampedMillis shards.observed checks reading) checks shards.data =
        (result, data) ∧
      checkAll (.ok reading) checks shards = (.returned result, shards.unlock data) := by
  unfold checkAll checkAllInner
  cases hvalid : validateBatch checks config.maxBatchSize with
  | error e =>
    refine ⟨.error (.store (.invalidBatch e)), shards.data, ?_, rfl⟩
    unfold Bounded.checkAll
    simp only [hvalid]
  | ok u =>
    have htopology := topology_new config ((validateBatch_length hvalid).trans config.maxBatchSize_le)
    cases hrouted : overfull config checks with
    | some e =>
      rw [hrouted] at htopology
      refine ⟨.error (.store e), shards.data, ?_, ?_⟩
      · unfold Bounded.checkAll
        simp only [hvalid, hrouted]
      · simp only
        rw [show (fun check : Check GcraPolicy => config.shardIndex check.counterKey) =
          Check.shard config from rfl, htopology]
        rfl
    | none =>
      rw [hrouted] at htopology
      obtain ⟨result, data', hlocked, hbounded⟩ := checkAllLocked_eq hd hvalid hrouted rfl
      refine ⟨_, data', hbounded, ?_⟩
      simp only
      rw [show (fun check : Check GcraPolicy => config.shardIndex check.counterKey) =
        Check.shard config from rfl, htopology]
      unfold preparedFrom at hlocked
      simp only [BoundedShards.prepared_eq prepare, BoundedShards.lockTopology_eq hpoison, hlocked]

end GcraStore

end Runlimit
