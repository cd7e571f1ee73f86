import Runlimit.Proof.StoreSteps

/-!
# A batch of one check

A batch of one check goes through validation, routing and the preflight of the batch path and ends
where the single check ends: `MemoryStore.checkAll_singleton` and `GcraStore.checkAll_singleton`, in every
state and for every clock. Only the cleanup budget is computed differently; `saturatingMul`
bounds it by what a `usize` can count, and a shard has no more expirations than that.
-/

namespace Runlimit

variable {config : MemoryStoreConfig}

/-- The entries and the expirations of a shard can be counted in a `usize`, as `len()` does. -/
def Shard.Countable {E : Type} (s : Shard E) : Prop := s.used ≤ usizeMax ∧ s.expirations.card ≤ usizeMax

/-- A shard within its capacity is countable. -/
theorem Bounded.Inv.countable {E : Type} {data : Bounded.Data config E} (h : Bounded.Inv data)
    (i : Fin config.shardCount) : (data i).Countable := by
  have hused := (h.shard i).used_le.trans (h.shard i).capacity_le
  exact ⟨hused, (h.shard i).card_expirations_le.trans hused⟩

theorem one_check_le {P : Type} [RateLimitPolicy P] (c : Check P) : [c].length ≤ usizeMax := by
  rw [List.length_singleton]
  decide

/-- Bounded removal adds no entry. -/
theorem Shard.pruneExpired_used_le {E : Type} {now : ℕ} : ∀ {m count : ℕ} {s s' : Shard E},
    s.pruneExpired now m = .ok (count, s') → s'.used ≤ s.used := by
  intro m
  induction m with
  | zero =>
    intro count s s' h
    cases h
    exact le_rfl
  | succ m ih =>
    intro count s s' h
    unfold pruneExpired at h
    split at h
    · cases h
      exact le_rfl
    · rename_i e hfirst
      split at h
      · cases h
        exact le_rfl
      · rw [except_bind_eq_ok] at h
        obtain ⟨-, -, h⟩ := h
        rw [except_bind_eq_ok] at h
        obtain ⟨⟨rest, pruned⟩, hrest, h⟩ := h
        rw [except_bind_eq_ok] at h
        obtain ⟨total, -, h⟩ := h
        cases h
        refine (ih hrest).trans ?_
        unfold used
        rw [Finmap.keys_erase]
        exact Finset.card_erase_le

/-- More removals than there are expirations change nothing. -/
theorem Shard.pruneExpired_of_card_le {E : Type} (now : ℕ) : ∀ {m m' : ℕ} {s : Shard E}, s.expirations.card ≤ m →
    s.expirations.card ≤ m' → s.pruneExpired now m = s.pruneExpired now m' := by
  -- an empty index ends the scan whatever the budget
  have hempty : ∀ {m : ℕ} {s : Shard E}, s.expirations.card = 0 → s.pruneExpired now m = pure (0, s) := by
    intro m s hcard
    have hfirst : s.expirations.first = none := by
      cases hfirst : s.expirations.first with
      | none => rfl
      | some e =>
        have he := (Finset.first_eq_some.1 hfirst).1
        have hpos := Finset.card_pos.2 ⟨e, he⟩
        omega
    cases m with
    | zero => rfl
    | succ m =>
      unfold pruneExpired
      simp only [hfirst]
  intro m
  induction m with
  | zero =>
    intro m' s hm _
    have hcard : s.expirations.card = 0 := by omega
    rw [hempty hcard, hempty hcard]
  | succ m ih =>
    intro m' s hm hm'
    cases m' with
    | zero =>
      have hcard : s.expirations.card = 0 := by omega
      rw [hempty hcard, hempty hcard]
    | succ m' =>
      unfold pruneExpired
      cases hfirst : s.expirations.first with
      | none => rfl
      | some e =>
        have he := (Finset.first_eq_some.1 hfirst).1
        -- each removal takes one expiration, so what is left fits what is left of either budget
        have herase := Finset.card_erase_of_mem he
        have hrest : ∀ entries : Table CounterKey (StoredEntry E),
            pruneExpired now m { s with entries, expirations := s.expirations.erase e } =
              pruneExpired now m' { s with entries, expirations := s.expirations.erase e } :=
          fun entries => ih (by simp only; omega) (by simp only; omega)
        simp only [hrest]

/-- The budget of one check in a batch is the budget of a single check, as far as it can be used. -/
theorem Shard.pruneExpired_saturatingMul {E : Type} {s : Shard E} (hcard : s.expirations.card ≤ usizeMax)
    (now m : ℕ) : s.pruneExpired now (saturatingMul m 1) = s.pruneExpired now m := by
  unfold saturatingMul
  rw [Nat.mul_one]
  by_cases hm : m ≤ usizeMax
  · rw [min_eq_left hm]
  · rw [min_eq_right (by omega)]
    exact pruneExpired_of_card_le now hcard (by omega)


/-- The decision about a batch of one check. -/
def Decision.asBatch : Decision → BatchDecision
  | .allowed allowance => ⟨.allowed [allowance]⟩
  | .denied denial => ⟨.denied 0 1 denial⟩
  | .shadowDenied denial => ⟨.shadowDenied 0 1 denial⟩

/-- The error of a batch of one check. -/
def GcraCheckError.asBatch : GcraCheckError → GcraBatchError
  | .poisonedShard error => .store (.poisonedShard error)
  | .arithmeticOverflow => .arithmeticOverflow

/-- The response to a batch of one check. -/
def Response.asBatch : Response → Response
  | .check result => .checkAll (result.map fun r => (r.map Decision.asBatch).mapError GcraCheckError.asBatch)
  | .checkAll result => .checkAll result

/-- The batch of one tells what the check was answered. -/
theorem asBatch_inj {result result' : CallResult (Except GcraCheckError Decision)}
    (h : (Response.check result).asBatch = (Response.check result').asBatch) : result = result' := by
  -- decisions and errors keep their kind, and what they hold
  have hdecision : Function.Injective Decision.asBatch := by
    intro a b hab
    cases a with
    | allowed a =>
      cases b with
      | allowed b =>
        cases hab
        rfl
      | denied b => cases hab
      | shadowDenied b => cases hab
    | denied a =>
      cases b with
      | allowed b => cases hab
      | denied b =>
        cases hab
        rfl
      | shadowDenied b => cases hab
    | shadowDenied a =>
      cases b with
      | allowed b => cases hab
      | denied b => cases hab
      | shadowDenied b =>
        cases hab
        rfl
  have herror : Function.Injective GcraCheckError.asBatch := by
    intro a b hab
    cases a with
    | poisonedShard a =>
      cases b with
      | poisonedShard b =>
        cases hab
        rfl
      | arithmeticOverflow => cases hab
    | arithmeticOverflow =>
      cases b with
      | poisonedShard b => cases hab
      | arithmeticOverflow => rfl
  have hmap := Response.checkAll.inj h
  cases result with
  | panicked =>
    cases result' with
    | panicked => rfl
    | returned r' => cases hmap
  | returned r =>
    cases result' with
    | panicked => cases hmap
    | returned r' =>
      have hr := CallResult.returned.inj hmap
      cases r with
      | error e =>
        cases r' with
        | error e' =>
          rw [herror (Except.error.inj hr)]
        | ok d' => cases hr
      | ok d =>
        cases r' with
        | error e' => cases hr
        | ok d' =>
          rw [hdecision (Except.ok.inj hr)]

/-- A quota denial of the batch's only check. -/
theorem quotaExceeded_asBatch (mode : QuotaMode) (denial : QuotaDenial) :
    BatchDecision.quotaExceeded mode 0 1 denial = .ok (Decision.quotaExceeded mode denial).asBatch := by
  unfold BatchDecision.quotaExceeded Decision.quotaExceeded
  split
  · rfl
  · rfl

section Routing

variable {P : Type} [RateLimitPolicy P] (config) (c : Check P)

/-- One check is a valid batch under every configuration. -/
theorem validateBatch_singleton : validateBatch [c] config.maxBatchSize = .ok () := by
  have hsize : ¬config.maxBatchSize < [c].length := Nat.not_lt.2 config.batch_pos
  have hlookup : (∅ : Table CounterKey ℕ).lookup c.counterKey = none := Finmap.lookup_empty _
  unfold validateBatch
  simp only [if_neg hsize]
  unfold validateBatchLoop
  simp only [ne_eq, not_true_eq_false, if_false, hlookup]
  rfl

/-- One check fits into any shard. -/
theorem overfull_singleton : overfull config [c] = none := by
  unfold overfull
  rw [Option.map_eq_none_iff, List.find?_eq_none]
  intro i _
  have hdemand : demand config [c] i ≤ 1 := List.count_le_length
  -- the configuration has no more shards than keys
  have hcapacity : 1 ≤ config.maxKeys / config.shardCount :=
    (Nat.one_le_div_iff config.shardCount_pos).2 config.shardCount_le
  unfold MemoryStoreConfig.shardCapacity
  rw [decide_eq_true_eq]
  omega

/-- The only shard that is locked is that of the check. -/
theorem guards_singleton : BoundedShards.guards config [c] = [c.shard config] := by
  refine List.perm_singleton.1 ((List.perm_ext_iff_of_nodup BoundedShards.guards_nodup (List.nodup_singleton _)).2 ?_)
  intro i
  rw [BoundedShards.mem_guards, touched_singleton, Finset.mem_singleton, List.mem_singleton]

theorem guardPosition_singleton : BoundedShards.guardPosition config [c] c = 0 := by
  have hguard := BoundedShards.getElem_guard config (List.mem_singleton.2 (rfl : c = c))
  rw [guards_singleton] at hguard
  have hlt := (List.getElem?_eq_some_iff.1 hguard).1
  rw [List.length_singleton] at hlt
  omega

theorem topologyShards_singleton :
    (BatchTopology.ofIndexes ([c].map (Check.shard config))).shards = [⟨c.shard config, 1⟩] := by
  have hguards : BatchTopology.indexes [c.shard config] = [c.shard config] := guards_singleton config c
  unfold BatchTopology.ofIndexes
  simp only [List.map_cons, List.map_nil, hguards, List.count_singleton_self]

theorem checkCounts_singleton :
    (BatchTopology.ofIndexes ([c].map (Check.shard config))).checkCounts = [1] := by
  unfold BatchTopology.checkCounts
  rw [topologyShards_singleton, List.map_singleton]

theorem lockTopology_singleton {E : Type} (shards : BoundedShards config E) :
    shards.lockTopology (BatchTopology.ofIndexes ([c].map (Check.shard config))) =
      (shards.lockShard (c.shard config)).map fun guard => [guard] := by
  unfold BoundedShards.lockTopology
  rw [topologyShards_singleton, List.mapM_cons, List.mapM_nil]
  cases shards.lockShard (c.shard config) with
  | error e => rfl
  | ok guard => rfl

end Routing

namespace MemoryStore

variable [Sha2] {n : ℕ}

/-- The preflight of one check. -/
theorem preflight_singleton (c : Check FixedWindowPolicy) (i : Fin n) (data : Fin n → Shard WindowEntry) (now : ℕ)
    (hused : (data i).used ≤ usizeMax) :
    preflight [c] [i] data now [0] [prepare 0 c 0] = (do
      match ← (data i).quotaDenial (prepare 0 c 0) now with
      | some denial => return some (Decision.quotaExceeded c.quotaMode denial).asBatch
      | none =>
        if !(data i).containsKey c.counterKey && decide ((data i).capacity ≤ (data i).used) then do
          return some (Decision.denied (← (data i).storageCapacityDenial now)).asBatch
        else return none) := by
  have hguard : indexed [i] (prepare 0 c 0).shardPosition = .ok i := rfl
  unfold preflight
  rw [hguard]
  simp only [except_ok_bind]
  refine congrArg _ (funext fun denied => ?_)
  cases denied with
  | some denial =>
    have hbatch := quotaExceeded_asBatch c.quotaMode denial
    have hinput : indexed [c] 0 = .ok c := rfl
    have hindex : (prepare 0 c 0).inputIndex = 0 := rfl
    simp only [hinput, except_ok_bind, List.length_singleton, hindex, hbatch, expectOk_ok]
  | none =>
    have hpending : indexed [0] (prepare 0 c 0).shardPosition = .ok 0 := rfl
    have hkey : (prepare 0 c 0).counterKey = c.counterKey := rfl
    have hprojected : addUsize (data i).used 0 = .ok (data i).used := addUsize_eq hused
    have hinserted : addUsize 0 1 = .ok 1 := rfl
    simp only [hpending, except_ok_bind, hkey, hprojected, hinserted]
    by_cases hcontains : (data i).containsKey c.counterKey = true
    · simp only [hcontains, if_true, Bool.not_true, Bool.false_and, Bool.false_eq_true, if_false]
      rfl
    · rw [Bool.not_eq_true] at hcontains
      simp only [hcontains, Bool.false_eq_true, if_false, Bool.not_false, Bool.true_and, decide_eq_true_eq]
      by_cases hfull : (data i).capacity ≤ (data i).used
      · simp only [if_pos hfull]
        rfl
      · simp only [if_neg hfull]
        rfl

/-- What a batch of one check does under its lock. -/
theorem checkAllLocked_singleton (clock : Panics Duration) (c : Check FixedWindowPolicy)
    {topology : BatchTopology n} (hcounts : topology.checkCounts = [1]) (i : Fin n) (data : Fin n → Shard WindowEntry)
    (hcount : (data i).Countable) (shardIndex : ℕ) :
    (checkAllLocked config.maxExpiredRemovalsPerCheck clock [c] topology [prepare 0 c 0] [i] data).map
        (fun r => (r.1.value, r.2)) =
      (checkLocked config clock c shardIndex (data i)).map
        fun r => (r.1.value.asBatch, Function.update data i r.2) := by
  unfold checkAllLocked checkLocked
  cases clock with
  | error panic => rfl
  | ok reading =>
    simp only [except_ok_bind, List.foldl_cons, List.foldl_nil, hcounts, List.zip_cons_cons, List.zip_nil_right]
    unfold cleanupLocked cleanupLocked
    have hprune := @Shard.pruneExpired_saturatingMul _
      ((data i).recordObservedMillis (max reading.asMillis (data i).latestObservedMillis)) hcount.2
      (max reading.asMillis (data i).latestObservedMillis) config.maxExpiredRemovalsPerCheck
    simp only [hprune]
    generalize hpruned : Shard.pruneExpired _ _ ((data i).recordObservedMillis _) = pruned
    cases pruned with
    | error panic => rfl
    | ok pruned =>
      obtain ⟨removed, shard⟩ := pruned
      have hused : (Function.update data i shard i).used ≤ usizeMax := by
        rw [Function.update_self]
        exact (Shard.pruneExpired_used_le hpruned).trans hcount.1
      have hpending : List.replicate [i].length 0 = [0] := rfl
      simp only [except_ok_bind, except_pure, hpending, preflight_singleton _ _ _ _ hused, Function.update_self]
      cases shard.quotaDenial (prepare 0 c 0) (max reading.asMillis (data i).latestObservedMillis) with
      | error panic => rfl
      | ok denied =>
        cases denied with
        | some denial => rfl
        | none =>
          simp only [except_ok_bind]
          split
          · cases shard.storageCapacityDenial (max reading.asMillis (data i).latestObservedMillis) with
            | error panic => rfl
            | ok denial => rfl
          · have hguard : indexed [i] (prepare 0 c 0).shardPosition = .ok i := rfl
            simp only [except_ok_bind]
            unfold consumeAll consumeAll
            simp only [hguard, except_ok_bind, Function.update_self]
            cases shard.consumeWindow (prepare 0 c 0) (max reading.asMillis (data i).latestObservedMillis) with
            | error panic => rfl
            | ok consumed =>
              simp only [except_ok_bind, except_pure, Function.update_idem]
              rfl

/-- **A batch of one check is the check**, in every state whose expirations a `usize` can count. -/
theorem checkAll_singleton (clock : Panics Duration) (c : Check FixedWindowPolicy)
    (shards : BoundedShards config WindowEntry) (hcount : ∀ i, (shards i).data.Countable) :
    tryAdmit clock (.checkAll [c]) shards =
      ((tryAdmit clock (.check c) shards).1.asBatch, (tryAdmit clock (.check c) shards).2) := by
  have hlocked := @checkAllLocked_singleton config _ _ clock c _ (checkCounts_singleton config c) (c.shard config) shards.data
    (hcount _) (c.shard config)
  have htopology := BatchTopology.topology_new config (one_check_le c)
  rw [overfull_singleton] at htopology
  have hprepared := @BoundedShards.prepared_eq _ _ config [c] _ prepare
  have hguards : ([c].zipIdx.map fun p => prepare p.2 p.1 (BoundedShards.guardPosition config [c] p.1)) =
      [prepare 0 c 0] := by
    rw [List.zipIdx_singleton, List.map_singleton, guardPosition_singleton]
  rw [hguards] at hprepared
  unfold tryAdmit checkAll checkAllInner check checkInner
  have hshard : (fun check : Check FixedWindowPolicy => config.shardIndex check.counterKey) = Check.shard config := rfl
  have hshard' : config.shardIndex c.counterKey = c.shard config := rfl
  simp only [validateBatch_singleton, hshard, hshard', htopology, hprepared, lockTopology_singleton]
  cases hlock : shards.lockShard (c.shard config) with
  | error e => rfl
  | ok guard =>
    obtain ⟨-, rfl⟩ := BoundedShards.lockShard_ok hlock
    simp only [except_map_ok]
    generalize checkAllLocked config.maxExpiredRemovalsPerCheck clock [c] _ _ _ shards.data = batch at hlocked
    generalize checkLocked config clock c _ _ = single at hlocked
    cases batch with
    | error panic =>
      cases single with
      | error panic' => rfl
      | ok single => cases hlocked
    | ok batch =>
      cases single with
      | error panic => cases hlocked
      | ok single =>
        have heq := Except.ok.inj hlocked
        rw [Prod.mk.injEq] at heq
        obtain ⟨hvalue, hdata⟩ := heq
        simp only [hdata]
        refine Prod.ext ?_ rfl
        exact congrArg (fun decision => Response.checkAll (.returned (.ok decision))) hvalue

end MemoryStore

namespace GcraStore

variable [Sha2] {n : ℕ}

/-- The preflight of one check. -/
theorem preflight_singleton (c : Check GcraPolicy) (i : Fin n) (data : Fin n → Shard GcraEntry) (now : ℕ)
    (hused : (data i).used ≤ usizeMax) (evaluation : Gcra.QuotaEvaluation) :
    preflight 1 [i] data now [0] [(prepare 0 c 0, evaluation)] = (do
      match evaluation with
      | .denied denial => return .error (Decision.quotaExceeded c.quotaMode denial).asBatch
      | .allowed allowance =>
        if !(data i).containsKey c.counterKey && decide ((data i).capacity ≤ (data i).used) then do
          return .error (Decision.denied (← (data i).storageCapacityDenial now)).asBatch
        else return .ok [allowance]) := by
  have hguard : indexed [i] (prepare 0 c 0).shardPosition = .ok i := rfl
  unfold preflight
  rw [hguard]
  simp only [except_ok_bind]
  cases evaluation with
  | denied denial =>
    have hbatch := quotaExceeded_asBatch c.quotaMode denial
    have hindex : (prepare 0 c 0).inputIndex = 0 := rfl
    have hmode : (prepare 0 c 0).quotaMode = c.quotaMode := rfl
    simp only [hmode, hindex, hbatch, expectOk_ok, except_ok_bind]
  | allowed allowance =>
    have hpending : indexed [0] (prepare 0 c 0).shardPosition = .ok 0 := rfl
    have hkey : (prepare 0 c 0).counterKey = c.counterKey := rfl
    have hprojected : addUsize (data i).used 0 = .ok (data i).used := addUsize_eq hused
    have hinserted : addUsize 0 1 = .ok 1 := rfl
    simp only [hpending, except_ok_bind, hkey, hprojected, hinserted]
    by_cases hcontains : (data i).containsKey c.counterKey = true
    · simp only [hcontains, if_true, Bool.not_true, Bool.false_and, Bool.false_eq_true, if_false]
      rfl
    · rw [Bool.not_eq_true] at hcontains
      simp only [hcontains, Bool.false_eq_true, if_false, Bool.not_false, Bool.true_and, decide_eq_true_eq]
      by_cases hfull : (data i).capacity ≤ (data i).used
      · simp only [if_pos hfull]
        rfl
      · simp only [if_neg hfull]
        rfl

/-- What a batch of one check does under its lock. -/
theorem checkAllLocked_singleton (clock : Panics Duration) (c : Check GcraPolicy)
    {topology : BatchTopology n} (hcounts : topology.checkCounts = [1]) (i : Fin n) (data : Fin n → Shard GcraEntry)
    (hcount : (data i).Countable) (shardIndex : ℕ) :
    (checkAllLocked config.maxExpiredRemovalsPerCheck clock 1 topology [prepare 0 c 0] [i] data).map
        (fun r => (r.1.map (·.value), r.2)) =
      (checkLocked config clock c shardIndex (data i)).map
        fun r => (r.1.map (·.value.asBatch), Function.update data i r.2) := by
  unfold checkAllLocked checkLocked
  cases clock with
  | error panic => rfl
  | ok reading =>
    have hguard : indexed [i] (prepare 0 c 0).shardPosition = .ok i := rfl
    simp only [except_ok_bind, List.foldl_cons, List.foldl_nil, hcounts, List.zip_cons_cons, List.zip_nil_right]
    unfold evaluateAll evaluateAll
    simp only [hguard, except_ok_bind]
    cases (data i).evaluate (prepare 0 c 0) (max reading.asMillis (data i).latestObservedMillis) with
    | error e =>
      simp only [except_pure, except_ok_bind, except_map_ok, Function.update_eq_self]
      rfl
    | ok evaluated =>
      simp only [except_pure, except_ok_bind, except_map_ok, List.zip_cons_cons, List.zip_nil_right]
      unfold cleanupLocked cleanupLocked
      have hprune := @Shard.pruneExpired_saturatingMul _
        ((data i).recordObservedMillis (max reading.asMillis (data i).latestObservedMillis)) hcount.2
        (max reading.asMillis (data i).latestObservedMillis) config.maxExpiredRemovalsPerCheck
      simp only [hprune]
      generalize hpruned : Shard.pruneExpired _ _ ((data i).recordObservedMillis _) = pruned
      cases pruned with
      | error panic => rfl
      | ok pruned =>
        obtain ⟨removed, shard⟩ := pruned
        have hused : (Function.update data i shard i).used ≤ usizeMax := by
          rw [Function.update_self]
          exact (Shard.pruneExpired_used_le hpruned).trans hcount.1
        have hpending : List.replicate [i].length 0 = [0] := rfl
        simp only [except_ok_bind, except_pure, hpending, preflight_singleton _ _ _ _ hused, Function.update_self]
        cases evaluated with
        | denied denial => rfl
        | allowed allowance =>
          simp only
          split
          · cases shard.storageCapacityDenial (max reading.asMillis (data i).latestObservedMillis) with
            | error panic => rfl
            | ok denial => rfl
          · simp only [except_ok_bind, List.zip_cons_cons, List.zip_nil_right]
            unfold consumeAll consumeAll
            simp only [hguard, except_ok_bind, Function.update_self]
            cases shard.consumeGcra (prepare 0 c 0) allowance with
            | error panic => rfl
            | ok consumed =>
              simp only [except_ok_bind, except_pure, Function.update_idem]
              rfl

/-- **A batch of one check is the check**, in every state whose expirations a `usize` can count. -/
theorem checkAll_singleton (clock : Panics Duration) (c : Check GcraPolicy)
    (shards : BoundedShards config GcraEntry) (hcount : ∀ i, (shards i).data.Countable) :
    tryAdmit clock (.checkAll [c]) shards =
      ((tryAdmit clock (.check c) shards).1.asBatch, (tryAdmit clock (.check c) shards).2) := by
  have hlocked := @checkAllLocked_singleton config _ _ clock c _ (checkCounts_singleton config c) (c.shard config) shards.data
    (hcount _) (c.shard config)
  have htopology := BatchTopology.topology_new config (one_check_le c)
  rw [overfull_singleton] at htopology
  have hprepared := @BoundedShards.prepared_eq _ _ config [c] _ prepare
  have hguards : ([c].zipIdx.map fun p => prepare p.2 p.1 (BoundedShards.guardPosition config [c] p.1)) =
      [prepare 0 c 0] := by
    rw [List.zipIdx_singleton, List.map_singleton, guardPosition_singleton]
  rw [hguards] at hprepared
  unfold tryAdmit checkAll checkAllInner check checkInner
  have hshard : (fun check : Check GcraPolicy => config.shardIndex check.counterKey) = Check.shard config := rfl
  have hshard' : config.shardIndex c.counterKey = c.shard config := rfl
  simp only [validateBatch_singleton, hshard, hshard', htopology, hprepared, lockTopology_singleton]
  cases hlock : shards.lockShard (c.shard config) with
  | error e => rfl
  | ok guard =>
    obtain ⟨-, rfl⟩ := BoundedShards.lockShard_ok hlock
    simp only [except_map_ok, List.length_singleton]
    generalize checkAllLocked config.maxExpiredRemovalsPerCheck clock 1 _ _ _ shards.data = batch at hlocked
    generalize checkLocked config clock c _ _ = single at hlocked
    cases batch with
    | error panic =>
      cases single with
      | error panic' => rfl
      | ok single => cases hlocked
    | ok batch =>
      cases single with
      | error panic => cases hlocked
      | ok single =>
        have heq := Except.ok.inj hlocked
        rw [Prod.mk.injEq] at heq
        obtain ⟨hvalue, hdata⟩ := heq
        obtain ⟨result, data'⟩ := batch
        obtain ⟨result', shard⟩ := single
        simp only at hvalue hdata
        subst hdata
        refine Prod.ext ?_ rfl
        cases result with
        | error e =>
          cases result' with
          | error e' => rfl
          | ok evaluation => cases hvalue
        | ok evaluation =>
          cases result' with
          | error e => cases hvalue
          | ok evaluation' =>
            exact congrArg (fun decision => Response.checkAll (.returned (.ok decision))) (Except.ok.inj hvalue)

end GcraStore

end Runlimit
