import Runlimit.Proof.Locked
import Runlimit.Proof.Encoding
import Runlimit.Spec.Run

/-!
# The fixed-window store is the bounded store

`MemoryStore.check` and `MemoryStore.checkAll` never unwind on their own and compute the
bounded store's operations over the anchored-window algorithm (`check_eq`, `checkAll_eq`), as
long as no stored usage exceeds the limit of its policy (`WithinLimits`) and no lock they
need is poisoned. The operations keep that bound (`check_withinLimits`,
`checkAll_withinLimits`) if the fingerprints of the policies in use do not collide.
-/

namespace Runlimit

open BatchTopology

/-! ## One shard -/

section OneShard

variable {s : Shard WindowEntry} {now : ℕ}

/-- A window fits the conversion that the source expects to succeed. -/
theorem durationFromMillis_eq {millis : ℕ} (h : millis ≤ maxWindowMillis) :
    durationFromMillis millis = .ok (Duration.fromMillis millis) :=
  if_pos (h.trans (by decide))

/-- Usage within the limit passes the assertion. -/
theorem remainingQuota_eq {limit : Capacity} {used : ℕ} (h : used ≤ limit.get) :
    remainingQuota limit used = .ok (limit.get - used) := by
  unfold remainingQuota
  rw [debugAssert_pos h]
  rfl

theorem windowAllowance_eq {limit : Capacity} {available : ℕ} (h : available ≤ limit.get)
    (after : Duration) :
    windowAllowance limit available after = .ok ⟨limit, available, ⟨after⟩, h⟩ := by
  unfold windowAllowance Allowance.new
  rw [dif_neg (Nat.not_lt.2 h)]
  rfl

/-- A live entry lasts no longer than the portable window. -/
theorem live_remaining_le (hs : s.Indexed) (hnow : s.latestObservedMillis ≤ now) {key : CounterKey}
    {entry : StoredEntry WindowEntry} (h : s.live key now = some entry) :
    entry.expiresAtMillis - now ≤ maxWindowMillis := by
  obtain ⟨hl, -⟩ := Shard.live_eq_some.1 h
  have := hs.expires_le _ _ hl
  omega

variable [Sha2] {c : Check FixedWindowPolicy}

/-- `quota_denial` is the denial of the algorithm. -/
theorem quotaDenial_eq (hs : s.Indexed) (hnow : s.latestObservedMillis ≤ now)
    (hused : ∀ e, s.live c.counterKey now = some e → e.value.used ≤ c.policy.limit.get) (k pos : ℕ) :
    s.quotaDenial (MemoryStore.prepare k c pos) now =
      .ok (match fixedWindowVerdict c now (s.live c.counterKey now) with
        | .denied denial => some denial
        | .allowed _ _ => none) := by
  unfold Shard.quotaDenial MemoryStore.prepare
  simp only [Shard.activeEntry_eq]
  cases hlive : s.live c.counterKey now with
  | none => rfl
  | some e =>
    have hle := hused e hlive
    simp only [Option.map_some, remainingQuota_eq hle, except_ok_bind,
      durationFromMillis_eq (live_remaining_le hs hnow hlive), fixedWindowVerdict]
    -- the source compares the cost with what is left, the algorithm the sum with the limit
    by_cases hdeny : c.policy.limit.get < e.value.used + c.cost
    · rw [if_pos hdeny, if_pos (by omega)]
      rfl
    · rw [if_neg hdeny, if_neg (by omega)]
      rfl

/-- `consume` stores what the algorithm stores and returns its allowance. -/
theorem consumeWindow_eq (hs : s.Indexed) (hnow : s.latestObservedMillis ≤ now) (hmax : now ≤ maxMillis)
    (hused : ∀ e, s.live c.counterKey now = some e → e.value.used ≤ c.policy.limit.get) (k pos : ℕ)
    {entry : StoredEntry WindowEntry} {allowance : Allowance}
    (h : fixedWindowVerdict c now (s.live c.counterKey now) = .allowed entry allowance) :
    s.consumeWindow (MemoryStore.prepare k c pos) now = .ok (allowance, s.put c.counterKey entry) := by
  have hcost : c.cost ≤ c.policy.limit.get := c.cost_le
  have hwindow := c.policy.window.le_max
  -- the expiry of a new window is far below the greatest `u128`
  have hadd : addU128 now c.policy.window.millis = .ok (now + c.policy.window.millis) := by
    refine addU128_eq ?_
    unfold maxMillis maxNanos u64Max at hmax
    unfold maxWindowMillis at hwindow
    unfold u128Max
    omega
  unfold Shard.consumeWindow MemoryStore.prepare
  simp only [hadd, except_ok_bind, Shard.activeEntry_eq]
  cases hlive : s.live c.counterKey now with
  | none =>
    rw [hlive] at h
    cases h
    simp only [Option.map_none, Shard.replace_eq hs, except_ok_bind, remainingQuota_eq hcost,
      Nat.add_sub_cancel_left, durationFromMillis_eq hwindow, windowAllowance_eq (Nat.sub_le _ _)]
    rfl
  | some e =>
    have hle := hused e hlive
    obtain ⟨hl, -⟩ := Shard.live_eq_some.1 hlive
    rw [hlive] at h
    unfold fixedWindowVerdict at h
    simp only at h
    split at h
    · cases h
    · rename_i hroom
      cases h
      have hlimit := c.policy.limit.le_max
      -- the addition does not saturate, since the sum is within the limit
      have hassert : c.cost ≤ c.policy.limit.get - e.value.used := by omega
      have hsat : min (e.value.used + c.cost) u64Max = e.value.used + c.cost := by
        refine min_eq_left ?_
        unfold maxLimit at hlimit
        unfold u64Max
        omega
      have havail : c.policy.limit.get - e.value.used - c.cost =
          c.policy.limit.get - (e.value.used + c.cost) := Nat.sub_sub _ _ _
      simp only [Option.map_some, remainingQuota_eq hle, except_ok_bind, debugAssert_pos hassert,
        Shard.updateValue_eq hs hl, expectSome_some,
        durationFromMillis_eq (live_remaining_le hs hnow hlive), hsat, havail,
        windowAllowance_eq (Nat.sub_le _ _)]
      rfl

end OneShard

/-! ## Single checks -/

namespace MemoryStore

variable [Sha2] {config : MemoryStoreConfig} {shards : BoundedShards config WindowEntry}
  {c : Check FixedWindowPolicy} {checks : List (Check FixedWindowPolicy)} {reading : Duration}

/-- What `check_inner` does to its shard is what the bounded store does to it. -/
theorem checkLocked_eq {data : Bounded.Data config WindowEntry} (hd : Bounded.Inv data)
    (hused : ∀ e, (data (c.shard config)).entries.lookup c.counterKey = some e →
      e.value.used ≤ c.policy.limit.get) (index : ℕ) :
    ∃ decision effect shard,
      checkLocked config (.ok reading) c index (data (c.shard config)) = .ok (⟨decision, effect⟩, shard) ∧
      Bounded.check fixedWindow (clampedMillis (Bounded.observed data) [c] reading) c data =
        (.ok decision, Function.update data (c.shard config) shard) := by
  set i := c.shard config with hi
  rw [show clampedMillis (Bounded.observed data) [c] reading =
    max reading.asMillis (data i).latestObservedMillis from clampedMillis_singleton]
  set now := max reading.asMillis (data i).latestObservedMillis with hnow
  have hle : (data i).latestObservedMillis ≤ now := le_max_right _ _
  have hmax : now ≤ maxMillis := max_le reading.asMillis_le (hd.shard i).observed_le
  have hrecord := (hd.shard i).record hle hmax
  set cleaned := Shard.prune now config.maxExpiredRemovalsPerCheck ((data i).recordObservedMillis now)
    with hcleaned
  obtain ⟨hinv, hpruned⟩ := Shard.prune_spec now config.maxExpiredRemovalsPerCheck hrecord
  rw [← hcleaned] at hinv hpruned
  have hobs : cleaned.latestObservedMillis = now := hpruned.observed_eq
  -- the cleanup has not touched the live entry, so the denial is about the entry that was stored
  have hlive : cleaned.live c.counterKey now = (data i).live c.counterKey now :=
    Shard.live_prune hrecord c.counterKey
  have hused' : ∀ e, cleaned.live c.counterKey now = some e → e.value.used ≤ c.policy.limit.get := by
    intro e he
    rw [hlive] at he
    exact hused e (Shard.live_eq_some.1 he).1
  have hdenial := quotaDenial_eq hinv.toIndexed hobs.le hused' 0 0
  unfold checkLocked Bounded.check
  simp only [except_ok_bind, ← hnow, Shard.pruneExpired_eq now _ hrecord, ← hcleaned, hdenial, ← hi,
    Bounded.cleanup_singleton]
  rw [show Bounded.entry now data c = cleaned.live c.counterKey now from hlive.symm]
  simp only [fixedWindow]
  cases hv : fixedWindowVerdict c now (cleaned.live c.counterKey now) with
  | denied d => exact ⟨_, _, _, rfl, rfl⟩
  | allowed entry allowance =>
    simp only [Function.update_self]
    by_cases hfull : c.counterKey ∉ cleaned.entries.keys ∧ cleaned.capacity ≤ cleaned.used
    · -- a full shard is clean: its budget of at least one removal found nothing to remove
      have hclean : cleaned.Clean cleaned.latestObservedMillis := by
        rw [hobs]
        rcases Shard.prune_clean_or_slack hrecord now config.maxExpiredRemovalsPerCheck with h | h
        · exact h
        · have := config.removals_pos
          rw [← hcleaned] at h
          omega
      have hstorage := Shard.storageCapacityDenial_eq hinv hclean
      rw [hobs] at hstorage
      rw [if_pos hfull]
      simp only [if_pos (Shard.noRoom_iff.2 hfull), hstorage, except_ok_bind]
      exact ⟨_, _, _, rfl, rfl⟩
    · have hconsume := consumeWindow_eq hinv.toIndexed hobs.le hmax hused' 0 0 hv
      rw [if_neg hfull]
      simp only [if_neg (fun h => hfull (Shard.noRoom_iff.1 h)), hconsume, except_ok_bind]
      refine ⟨_, _, _, rfl, ?_⟩
      rw [Function.update_idem]

/-- **A single check is the bounded store's check.** -/
theorem check_eq (reading : Duration) (hd : Bounded.Inv shards.data)
    (hused : ∀ e, (shards.data (c.shard config)).entries.lookup c.counterKey = some e →
      e.value.used ≤ c.policy.limit.get)
    (hpoison : (shards (c.shard config)).poisoned = false) :
    ∃ decision data,
      Bounded.check fixedWindow (clampedMillis shards.observed [c] reading) c shards.data =
        (.ok decision, data) ∧
      check (.ok reading) c shards = (.returned (.ok decision), shards.unlock data) := by
  obtain ⟨decision, effect, shard, hlocked, hbounded⟩ := checkLocked_eq hd hused (c.shard config)
  refine ⟨decision, _, hbounded, ?_⟩
  unfold check checkInner
  have hlock : shards.lockShard (config.shardIndex c.counterKey) = .ok (c.shard config) :=
    if_neg (by rw [Bool.not_eq_true]; exact hpoison)
  simp only [hlock, hlocked]
  rfl

/-! ## Atomic batches -/

/-- The verdicts of a batch; the fixed-window algorithm never fails. -/
def verdicts (now : ℕ) (data : Bounded.Data config WindowEntry) (checks : List (Check FixedWindowPolicy)) :
    List (Check FixedWindowPolicy × Verdict WindowEntry) :=
  checks.map fun c => (c, fixedWindowVerdict c now (Bounded.entry now data c))

theorem evaluateAll_eq (now : ℕ) (data : Bounded.Data config WindowEntry) :
    evaluateAll fixedWindow now (Bounded.entry now data) checks = .ok (verdicts now data checks) := by
  unfold evaluateAll verdicts
  induction checks with
  | nil => rfl
  | cons c rest ih =>
    rw [List.mapM_cons, ih]
    rfl

section Batch

variable {data : Bounded.Data config WindowEntry} {now : ℕ}

/-- The usage of the checks' live entries is within their limits. -/
def LiveWithin (now : ℕ) (data : Bounded.Data config WindowEntry)
    (checks : List (Check FixedWindowPolicy)) : Prop :=
  ∀ c ∈ checks, ∀ e, Bounded.entry now data c = some e → e.value.used ≤ c.policy.limit.get

/-- The preflight loop is the scan. A shard it finds full is clean, since the budget of the
batch covers every check routed to the shard. -/
theorem preflight_eq (hd : Bounded.Inv data) (hobs : ∀ c ∈ checks, Bounded.observed data (c.shard config) = now)
    (hused : LiveWithin now data checks)
    (hbudget : ∀ c ∈ checks, (data (c.shard config)).Clean now ∨
      (data (c.shard config)).used + Bounded.budget config checks (c.shard config) ≤
        config.shardCapacity (c.shard config)) :
    ∀ (rest : List (Check FixedWindowPolicy)) (k : ℕ) (byGuard : List ℕ)
      (byShard : Fin config.shardCount → ℕ), checks.drop k = rest →
      BoundedShards.Counts config checks byGuard byShard →
      (∀ i, byShard i + demand config rest i ≤ Bounded.budget config checks i) →
      (∀ i, (data i).used + byShard i ≤ config.shardCapacity i) →
      preflight checks (BoundedShards.guards config checks) data now byGuard
          ((rest.zipIdx k).map fun p => prepare p.2 p.1 (BoundedShards.guardPosition config checks p.1)) =
        .ok ((scan config checks.length
          (fun key => decide (key ∈ (data (config.shardIndex key)).entries.keys))
          (fun i => (data i).used) (fun i => (data i).abs.full now) k byShard
          (verdicts now data rest)).map BatchDecision.mk) := by
  intro rest
  induction rest with
  | nil => intro k byGuard byShard _ _ _ _; rfl
  | cons c rest ih =>
    intro k byGuard byShard hdrop hcounts hpending hroom
    have hget : checks[k]? = some c := by
      rw [← List.head?_drop, hdrop]
      rfl
    have hdrop' : checks.drop (k + 1) = rest := by
      rw [← List.drop_drop, hdrop]
      rfl
    have hc : c ∈ checks := List.mem_of_getElem? hget
    have hk : k < checks.length := (List.getElem?_eq_some_iff.1 hget).1
    have hobs' : (data (c.shard config)).latestObservedMillis = now := hobs c hc
    have hdenial := quotaDenial_eq (hd.shard _).toIndexed hobs'.le (hused c hc) k
      (BoundedShards.guardPosition config checks c)
    -- a check that takes no slot leaves the demand of the rest as it was
    have hkeep := fun i => demand_skip (hpending i)
    unfold preflight verdicts scan
    rw [List.zipIdx_cons, List.map_cons, List.map_cons]
    simp only [prepare]
    rw [BoundedShards.indexed_guard hc, except_ok_bind]
    unfold prepare at hdenial
    simp only [hdenial, except_ok_bind]
    rw [show (data (c.shard config)).live c.counterKey now = Bounded.entry now data c from rfl]
    cases hv : fixedWindowVerdict c now (Bounded.entry now data c) with
    | denied d =>
      simp only [indexed_eq hget, except_ok_bind, batchQuotaExceeded_eq hk, expectOk_ok]
      rfl
    | allowed entry allowance =>
      simp only [Shard.containsKey_iff, decide_eq_true_eq]
      by_cases hin : c.counterKey ∈ (data (c.shard config)).entries.keys
      · -- a key that is stored needs no room
        rw [if_pos hin, if_pos (by exact hin)]
        exact ih (k + 1) byGuard byShard hdrop' hcounts hkeep hroom
      · -- a new key: the count at the guard's position is the count of its shard
        have hcount := hcounts _ _ (BoundedShards.getElem_guard config hc)
        have hcapacity := shardCapacity_le_usize config (c.shard config)
        have hprojected := (hroom (c.shard config)).trans hcapacity
        rw [if_neg hin, if_neg (by exact hin), indexed_eq hcount, except_ok_bind, addUsize_eq hprojected,
          except_ok_bind, hd.capacity_eq]
        by_cases hfull : config.shardCapacity (c.shard config) ≤
            (data (c.shard config)).used + byShard (c.shard config)
        · have hclean : (data (c.shard config)).Clean (data (c.shard config)).latestObservedMillis := by
            rw [hobs']
            rcases hbudget c hc with h | h
            · exact h
            · have := hpending (c.shard config)
              rw [demand_cons_self] at this
              omega
          have hstorage := Shard.storageCapacityDenial_eq (hd.shard _) hclean
          rw [hobs'] at hstorage
          rw [if_pos hfull, if_pos hfull, hstorage, except_ok_bind, batchDenied_eq hk, expectOk_ok]
          rfl
        · rw [if_neg hfull, if_neg hfull, addUsize_eq (by omega), except_ok_bind]
          exact ih (k + 1) _ _ hdrop' (hcounts.set hc _) (fun i => demand_count (hpending i)) (room_count hroom hfull)

/-- The consumption loop stores the entries of the verdicts. `data` is the state the verdicts
were taken on, `data'` what the first checks have made of it. -/
theorem consumeAll_eq (hmax : now ≤ maxMillis) :
    ∀ (rest : List (Check FixedWindowPolicy)) (k : ℕ) (data' : Bounded.Data config WindowEntry),
      (∀ c ∈ rest, c ∈ checks) → (rest.map Check.counterKey).Nodup → LiveWithin now data rest →
      (∀ i, (data' i).Indexed) → (∀ c ∈ rest, Bounded.observed data' (c.shard config) = now) →
      (∀ c ∈ rest, Bounded.entry now data' c = Bounded.entry now data c) →
      (∀ p ∈ verdicts now data rest, ∃ e a, p.2 = .allowed e a) →
      Bounded.Fits now (verdicts now data rest) →
      consumeAll (BoundedShards.guards config checks) now
          ((rest.zipIdx k).map fun p => prepare p.2 p.1 (BoundedShards.guardPosition config checks p.1)) data' =
        .ok (allowances (verdicts now data rest), Bounded.putAll (verdicts now data rest) data') := by
  intro rest
  induction rest with
  | nil => intro k data' _ _ _ _ _ _ _ _; rfl
  | cons c rest ih =>
    intro k data' hmem hnodup hused hindexed hobs hentry hallowed hfits
    rw [List.forall_mem_cons] at hmem hobs hentry
    rw [List.map_cons, List.nodup_cons] at hnodup
    unfold LiveWithin at hused
    rw [List.forall_mem_cons] at hused
    unfold verdicts at hallowed
    rw [List.map_cons, List.forall_mem_cons] at hallowed
    obtain ⟨⟨entry, allowance, hv⟩, hallowed⟩ := hallowed
    simp only at hv
    have hobs' : (data' (c.shard config)).latestObservedMillis = now := hobs.1
    have hexp := (hfits _ List.mem_cons_self entry allowance hv).2
    -- the checks before it have other keys, so the entry is the one the verdict was taken on
    have hlive : (data' (c.shard config)).live c.counterKey now = Bounded.entry now data c := hentry.1
    have hconsume := consumeWindow_eq (hindexed (c.shard config)) hobs'.le hmax
      (by rw [hlive]; exact hused.1) k (BoundedShards.guardPosition config checks c) (by rw [hlive]; exact hv)
    have hrest := ih (k + 1) (Function.update data' (c.shard config)
      ((data' (c.shard config)).put c.counterKey entry)) hmem.2 hnodup.2 hused.2 ?_ ?_ ?_ hallowed
      (fun p hp => hfits p (List.mem_cons_of_mem _ hp))
    · rw [List.zipIdx_cons, List.map_cons]
      unfold consumeAll
      simp only [prepare] at hconsume hrest ⊢
      rw [BoundedShards.indexed_guard hmem.1, except_ok_bind, hconsume, except_ok_bind]
      have hcons : verdicts now data (c :: rest) =
          (c, .allowed entry allowance) :: verdicts now data rest := by
        unfold verdicts
        rw [List.map_cons, hv]
      simp only [hrest, except_ok_bind, hcons]
      rfl
    · intro i
      by_cases hi : i = c.shard config
      · rw [hi, Function.update_self]
        exact (hindexed _).put (by rw [hobs']; exact hexp)
      · rw [Function.update_of_ne hi]
        exact hindexed i
    · intro c' hc'
      rw [Bounded.observed_update_put]
      exact hobs.2 c' hc'
    · intro c' hc'
      rw [← hentry.2 c' hc']
      have hne : c'.counterKey ≠ c.counterKey := by
        intro h
        exact hnodup.1 (h ▸ List.mem_map_of_mem hc')
      exact Bounded.entry_update_put hne

/-- **What a batch does under its locks is the bounded store's batch.** -/
theorem checkAllLocked_eq (hd : Bounded.Inv data) (hused : LiveWithin now data checks)
    (hvalid : validateBatch checks config.maxBatchSize = .ok ())
    (hrouted : overfull config checks = none)
    (hnow : clampedMillis (Bounded.observed data) checks reading = now) :
    ∃ decision effects data',
      checkAllLocked config.maxExpiredRemovalsPerCheck (.ok reading) checks
          (ofIndexes (checks.map (Check.shard config)))
          (checks.zipIdx.map fun p => prepare p.2 p.1 (BoundedShards.guardPosition config checks p.1))
          (BoundedShards.guards config checks) data = .ok (⟨decision, effects⟩, data') ∧
      Bounded.checkAll fixedWindow now checks data = (.ok decision, data') := by
  have hle : ∀ i ∈ touched config checks, Bounded.observed data i ≤ now := by
    intro i hi
    rw [← hnow]
    exact le_clampedMillis hi
  have hmax : now ≤ maxMillis := by
    rw [← hnow]
    exact clampedMillis_le fun i => (hd.shard i).observed_le
  obtain ⟨effects, hlen, hcleanup⟩ := BoundedShards.cleanupLocked_eq hd hmax hle
  set cleaned := Bounded.cleanup (Bounded.budget config checks) (touched config checks) now data
    with hcleaned
  have hinv : Bounded.Inv cleaned := Bounded.cleanup_inv hd hmax hle
  have htouched : ∀ c ∈ checks, c.shard config ∈ touched config checks := fun c hc =>
    mem_touched.2 ⟨c, hc, rfl⟩
  have hobs : ∀ c ∈ checks, Bounded.observed cleaned (c.shard config) = now := fun c hc =>
    Bounded.cleanup_observed hd hmax hle (htouched c hc)
  have hentry : ∀ c : Check FixedWindowPolicy, Bounded.entry now cleaned c = Bounded.entry now data c :=
    Bounded.entry_cleanup _ hd hmax hle
  -- the batch is judged after its cleanup, the bounded store before: the live entries are the same
  have hverdicts : verdicts now cleaned checks = verdicts now data checks := by
    unfold verdicts
    simp only [hentry]
  have hused' : LiveWithin now cleaned checks := by
    intro c hc e he
    rw [hentry] at he
    exact hused c hc e he
  have hpreflight := preflight_eq hinv hobs hused'
    (fun c hc => Bounded.cleanup_clean_or_slack _ hd hmax hle (htouched c hc)) checks 0 _ _ rfl
    BoundedShards.Counts.zero (by intro i; rw [Nat.zero_add]; exact Bounded.demand_le_budget hrouted i)
    (fun i => (hinv.shard i).used_le.trans_eq (hinv.capacity_eq i))
  rw [hverdicts] at hpreflight
  have hclamp := BoundedShards.clamp_eq checks (Bounded.observed data) reading
  unfold Bounded.observed at hclamp hnow
  unfold checkAllLocked Bounded.checkAll
  simp only [except_ok_bind, hclamp, hnow, hcleanup, hpreflight, hvalid, hrouted, evaluateAll_eq]
  unfold Bounded.firstDenial
  cases hscan : scan config checks.length
      (fun key => decide (key ∈ (cleaned (config.shardIndex key)).entries.keys))
      (fun i => (cleaned i).used) (fun i => (cleaned i).abs.full now) 0 (fun _ => 0)
      (verdicts now data checks) with
  | some outcome =>
    obtain ⟨shardEffects, hcollect⟩ := BoundedShards.collectShardEffects_eq cleaned hlen.symm
    simp only [Option.map_some, hcollect, except_ok_bind, ← hcleaned]
    exact ⟨_, _, _, rfl, rfl⟩
  | none =>
    -- nothing was denied: every check is consumed, in order
    have hallowed := scan_none_allowed hscan
    have hfits := Bounded.evaluateAll_fits hd hle (evaluateAll_eq now data)
    have hconsume := consumeAll_eq hmax checks 0 cleaned (fun _ h => h)
      (validateBatch_ok hvalid).2 hused (fun i => (hinv.shard i).toIndexed) hobs
      (fun c _ => hentry c) hallowed hfits
    obtain ⟨shardEffects, hcollect⟩ := BoundedShards.collectShardEffects_eq
      (Bounded.putAll (verdicts now data checks) cleaned) hlen.symm
    have hne : allowances (verdicts now data checks) ≠ [] :=
      allowances_ne_nil hallowed (by
        unfold verdicts
        rw [Ne, List.map_eq_nil_iff]
        exact (validateBatch_ok hvalid).1)
    simp only [Option.map_none, hconsume, except_ok_bind, batchAllowed_eq hne, expectOk_ok, hcollect,
      ← hcleaned]
    exact ⟨_, _, _, rfl, rfl⟩

end Batch

/-- **An atomic batch is the bounded store's batch.** -/
theorem checkAll_eq (reading : Duration) (hd : Bounded.Inv shards.data)
    (hused : LiveWithin (clampedMillis shards.observed checks reading) shards.data checks)
    (hpoison : ∀ i ∈ touched config checks, (shards i).poisoned = false) :
    ∃ result data,
      Bounded.checkAll fixedWindow (clampedMillis shards.observed checks reading) checks shards.data =
        (result.mapError .store, data) ∧
      checkAll (.ok reading) checks shards = (.returned result, shards.unlock data) := by
  unfold checkAll checkAllInner
  cases hvalid : validateBatch checks config.maxBatchSize with
  | error e =>
    refine ⟨.error (.invalidBatch e), shards.data, ?_, rfl⟩
    unfold Bounded.checkAll
    simp only [hvalid]
    rfl
  | ok u =>
    have htopology := topology_new config ((validateBatch_length hvalid).trans config.maxBatchSize_le)
    cases hrouted : overfull config checks with
    | some e =>
      rw [hrouted] at htopology
      refine ⟨.error e, shards.data, ?_, ?_⟩
      · unfold Bounded.checkAll
        simp only [hvalid, hrouted]
        rfl
      · simp only
        rw [show (fun check : Check FixedWindowPolicy => config.shardIndex check.counterKey) =
          Check.shard config from rfl, htopology]
        rfl
    | none =>
      rw [hrouted] at htopology
      obtain ⟨decision, effects, data', hlocked, hbounded⟩ :=
        checkAllLocked_eq hd hused hvalid hrouted rfl
      refine ⟨.ok decision, data', hbounded, ?_⟩
      simp only
      rw [show (fun check : Check FixedWindowPolicy => config.shardIndex check.counterKey) =
        Check.shard config from rfl, htopology]
      simp only [BoundedShards.prepared_eq prepare, BoundedShards.lockTopology_eq hpoison, hlocked]
      rfl

/-! ## Usage stays within the limits -/

/-- The usage stored under a key is within the limit of every policy that has this key. -/
def WithinLimit (policies : Set FixedWindowPolicy) (key : CounterKey) (entry : StoredEntry WindowEntry) :
    Prop :=
  ∀ p ∈ policies, p.fingerprint = key.fingerprint → entry.value.used ≤ p.limit.get

/-- The anchored window keeps usage within the limit, unless two policies share a fingerprint. -/
theorem withinLimit_verdict {policies : Set FixedWindowPolicy}
    (hfree : Set.InjOn Sha2.sha256 (FixedWindowPolicy.preimage '' policies)) (hc : c.policy ∈ policies)
    {now : ℕ} {live : Option (StoredEntry WindowEntry)} {entry : StoredEntry WindowEntry}
    {allowance : Allowance} (h : fixedWindow.evaluate c now live = .ok (.allowed entry allowance)) :
    WithinLimit policies c.counterKey entry := by
  intro p hp hfp
  have hpre : p.preimage = c.policy.preimage :=
    hfree (Set.mem_image_of_mem _ hp) (Set.mem_image_of_mem _ hc) hfp
  rw [(FixedWindowPolicy.preimage_inj hpre).2.2.1]
  have h' : fixedWindowVerdict c now live = .allowed entry allowance := Except.ok.inj h
  unfold fixedWindowVerdict at h'
  split at h'
  · cases h'
    exact c.cost_le
  · split at h'
    · cases h'
    · rename_i hle
      cases h'
      exact Nat.not_lt.1 hle

end MemoryStore

end Runlimit
