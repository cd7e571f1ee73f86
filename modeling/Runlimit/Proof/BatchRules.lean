import Runlimit.Proof.StoreSteps

/-!
# The rules of a batch

What `validate_batch` and `BatchTopology::new` decide, in the terms of the batch itself.

* `validateBatchLoop_rejects`: the single pass stops at the least index that breaks a rule. Its
  invariant is that the map holds the first occurrence of every key before the index.
* `validate_batch_exact`: which batches are accepted, and with which error the others fail.
* `batch_routing_exact`: routing is a sorted grouping of the inputs, and fails at the smallest shard
  that could not hold what is routed to it.
-/

namespace Runlimit

/-! ## Validation -/

section Validation

variable {P : Type} [RateLimitPolicy P] {mode : QuotaMode} {checks : List (Check P)}

/-- The check at an index has another mode than the first, or the key of an earlier check. -/
def Offends (mode : QuotaMode) (checks : List (Check P)) (index : ℕ) : Prop :=
  ∃ c, checks[index]? = some c ∧ (c.quotaMode ≠ mode ∨
    ∃ earlier c', earlier < index ∧ checks[earlier]? = some c' ∧ c'.counterKey = c.counterKey)

/-- The indexes at which a key occurs. -/
def occurrences (checks : List (Check P)) (key : CounterKey) : Set ℕ :=
  { index | ∃ c, checks[index]? = some c ∧ c.counterKey = key }

/-- What the pass over the checks finds. -/
inductive Rejected (mode : QuotaMode) (checks : List (Check P)) : Except BatchError Unit → Prop where
  | accepted (hclean : ∀ index, ¬Offends mode checks index) : Rejected mode checks (.ok ())
  | mixed {index : ℕ} {c : Check P} (hleast : IsLeast { index | Offends mode checks index } index)
      (hc : checks[index]? = some c) (hmode : c.quotaMode ≠ mode) :
      Rejected mode checks (.error (.mixedQuotaModes mode index c.quotaMode))
  | duplicate {first index : ℕ} {c : Check P} (hleast : IsLeast { index | Offends mode checks index } index)
      (hc : checks[index]? = some c) (hmode : c.quotaMode = mode)
      (hfirst : IsLeast (occurrences checks c.counterKey) first) :
      Rejected mode checks (.error (.duplicateKey first index))

/-- The first index found is the least occurrence. -/
theorem isLeast_of_findIdx? {key : CounterKey} {first : ℕ}
    (h : checks.findIdx? (fun c => decide (c.counterKey = key)) = some first) :
    IsLeast (occurrences checks key) first := by
  rw [List.findIdx?_eq_some_iff_getElem] at h
  obtain ⟨hlt, hkey, hbefore⟩ := h
  refine ⟨⟨checks[first], List.getElem?_eq_getElem hlt, of_decide_eq_true hkey⟩, ?_⟩
  rintro index ⟨c, hc, hoccurs⟩
  by_contra hindex
  have hlt' := Nat.not_le.1 hindex
  have hget := (List.getElem?_eq_some_iff.1 hc).2
  have hnot := hbefore index hlt'
  rw [hget] at hnot
  exact hnot (decide_eq_true hoccurs)

/-- The pass, from any index: the checks before it break no rule, and the map holds the first
occurrence of each of their keys. -/
theorem validateBatchLoop_rejects : ∀ {rest before : List (Check P)} {seen : Table CounterKey ℕ},
    checks = before ++ rest →
    (∀ key, seen.lookup key = before.findIdx? fun c => decide (c.counterKey = key)) →
    (∀ index < before.length, ¬Offends mode checks index) →
    Rejected mode checks (validateBatchLoop mode before.length seen rest) := by
  intro rest
  induction rest with
  | nil =>
    intro before seen hchecks hseen hclean
    refine .accepted fun index hoffends => ?_
    obtain ⟨c, hc, -⟩ := id hoffends
    have hlt := (List.getElem?_eq_some_iff.1 hc).1
    rw [hchecks, List.append_nil] at hlt
    exact hclean index hlt hoffends
  | cons c rest ih =>
    intro before seen hchecks hseen hclean
    have hget : checks[before.length]? = some c := by
      rw [hchecks, List.getElem?_append_right le_rfl, Nat.sub_self]
      rfl
    -- an offence here is the first one
    have hleast : Offends mode checks before.length → IsLeast { index | Offends mode checks index } before.length :=
      fun hoffends => ⟨hoffends, fun index hindex => Nat.not_lt.1 fun hlt => hclean index hlt hindex⟩
    unfold validateBatchLoop
    by_cases hmode : c.quotaMode = mode
    · rw [if_neg (not_not.2 hmode)]
      cases hlookup : seen.lookup c.counterKey with
      | some first =>
        rw [hseen] at hlookup
        -- the map holds the first occurrence, and the key has occurred before
        have hfirst : IsLeast (occurrences checks c.counterKey) first := by
          refine isLeast_of_findIdx? ?_
          rw [hchecks, List.findIdx?_append, hlookup]
          rfl
        have hlt : first < before.length := (List.findIdx?_eq_some_iff_getElem.1 hlookup).1
        obtain ⟨c', hc', hkey⟩ := hfirst.1
        exact .duplicate (hleast ⟨c, hget, Or.inr ⟨first, c', hlt, hc', hkey⟩⟩) hget hmode hfirst
      | none =>
        have hnew : before.findIdx? (fun c' => decide (c'.counterKey = c.counterKey)) = none := by
          rw [← hseen, hlookup]
        have hnext := @ih (before ++ [c]) (seen.insert c.counterKey before.length) (by rw [hchecks]; simp) ?_ ?_
        · rw [List.length_append] at hnext
          exact hnext
        · intro key
          rw [Finmap.lookup_insert_if, List.findIdx?_append]
          by_cases hkey : key = c.counterKey
          · rw [if_pos hkey, hkey, hnew]
            simp
          · rw [if_neg hkey, hseen]
            simp [Ne.symm hkey]
        · intro index hindex hoffends
          rw [List.length_append] at hindex
          rcases Nat.lt_or_ge index before.length with hlt | hge
          · exact hclean index hlt hoffends
          · have heq : index = before.length := by
              simp only [List.length_singleton] at hindex
              omega
            -- the check itself has the mode of the batch, and a new key
            obtain ⟨c', hc', hwhy⟩ := hoffends
            rw [heq, hget, Option.some.injEq] at hc'
            subst hc'
            rcases hwhy with hmode' | ⟨earlier, e, hearlier, he, hkey⟩
            · exact hmode' hmode
            · rw [heq] at hearlier
              rw [hchecks, List.getElem?_append_left hearlier] at he
              rw [List.findIdx?_eq_none_iff] at hnew
              have hnot := hnew e (List.mem_of_getElem? he)
              exact of_decide_eq_false hnot hkey
    · rw [if_pos hmode]
      exact .mixed (hleast ⟨c, hget, Or.inl hmode⟩) hget hmode

/-- Checks of one mode and of distinct keys break no rule. -/
theorem not_offends (hmodes : ∀ c ∈ checks, c.quotaMode = mode) (hnodup : (checks.map Check.counterKey).Nodup)
    (index : ℕ) : ¬Offends mode checks index := by
  rintro ⟨c, hc, hmode | ⟨earlier, c', hlt, hc', hkey⟩⟩
  · exact hmode (hmodes c (List.mem_of_getElem? hc))
  · have hmap : (checks.map Check.counterKey)[earlier]? = (checks.map Check.counterKey)[index]? := by
      rw [List.getElem?_map, List.getElem?_map, hc, hc', Option.map_some, Option.map_some, hkey]
    have hbound : earlier < (checks.map Check.counterKey).length := by
      rw [List.length_map]
      exact (List.getElem?_eq_some_iff.1 hc').1
    have heq : earlier = index := (List.getElem?_inj hbound hnodup).1 hmap
    omega

/-- **`validate_batch` decides exactly its specification.** -/
theorem validate_batch_exact (checks : List (Check P)) (maximum : ℕ) :
    (validateBatch checks maximum = .ok () ↔ checks ≠ [] ∧ checks.length ≤ maximum ∧
      (∀ c ∈ checks, ∀ c' ∈ checks, c.quotaMode = c'.quotaMode) ∧ (checks.map Check.counterKey).Nodup) ∧
    (checks = [] → validateBatch checks maximum = .error .emptyBatch) ∧
    (checks ≠ [] → maximum < checks.length →
      validateBatch checks maximum = .error (.batchTooLarge checks.length maximum)) ∧
    ∀ first, checks.head? = some first → checks.length ≤ maximum → validateBatch checks maximum ≠ .ok () →
      ∃ index c, IsLeast { index | Offends first.quotaMode checks index } index ∧ checks[index]? = some c ∧
        (c.quotaMode ≠ first.quotaMode →
          validateBatch checks maximum = .error (.mixedQuotaModes first.quotaMode index c.quotaMode)) ∧
        (c.quotaMode = first.quotaMode → ∃ firstIndex, IsLeast (occurrences checks c.counterKey) firstIndex ∧
          validateBatch checks maximum = .error (.duplicateKey firstIndex index)) := by
  cases checks with
  | nil =>
    refine ⟨⟨nofun, fun h => absurd rfl h.1⟩, fun _ => rfl, fun h => absurd rfl h, ?_⟩
    intro first hfirst
    cases hfirst
  | cons first rest =>
    have hempty : ∀ key : CounterKey, (∅ : Table CounterKey ℕ).lookup key =
        ([] : List (Check P)).findIdx? fun c => decide (c.counterKey = key) := fun key => by simp
    -- the mode of the batch is that of its first check
    have hpass : Rejected first.quotaMode (first :: rest) (validateBatchLoop first.quotaMode 0 ∅ (first :: rest)) :=
      validateBatchLoop_rejects rfl hempty fun index hindex => absurd hindex (Nat.not_lt_zero index)
    have hle : (first :: rest).length ≤ maximum →
        validateBatch (first :: rest) maximum = validateBatchLoop first.quotaMode 0 ∅ (first :: rest) :=
      fun h => if_neg (Nat.not_lt.2 h)
    refine ⟨⟨fun h => ?_, ?_⟩, nofun, fun _ h => if_pos h, ?_⟩
    · obtain ⟨hne, hnodup⟩ := validateBatch_ok h
      have hmodes := validateBatch_mode h
      exact ⟨hne, validateBatch_length h, fun c hc c' hc' => (hmodes c hc).trans (hmodes c' hc').symm, hnodup⟩
    · rintro ⟨-, hlength, hmodes, hnodup⟩
      have hclean := @not_offends _ _ first.quotaMode (first :: rest)
        (fun c hc => hmodes c hc first List.mem_cons_self) hnodup
      rw [hle hlength]
      generalize validateBatchLoop first.quotaMode 0 ∅ (first :: rest) = result at hpass
      cases hpass with
      | accepted => rfl
      | mixed hleast => exact absurd hleast.1 (hclean _)
      | duplicate hleast => exact absurd hleast.1 (hclean _)
    · intro first' hfirst hlength hrejected
      rw [List.head?_cons, Option.some.injEq] at hfirst
      subst hfirst
      rw [hle hlength] at hrejected ⊢
      generalize validateBatchLoop first.quotaMode 0 ∅ (first :: rest) = result at hpass hrejected
      cases hpass with
      | accepted => exact absurd rfl hrejected
      | mixed hleast hc hmode => exact ⟨_, _, hleast, hc, fun _ => rfl, fun h => absurd h hmode⟩
      | duplicate hleast hc hmode hfirst =>
        exact ⟨_, _, hleast, hc, fun h => absurd hmode h, fun _ => ⟨_, hfirst, rfl⟩⟩

/-- Three logins of which the last repeats the first. -/
def repeatedLogins : letI := vectorSha2; List (Check FixedWindowPolicy) :=
  letI := vectorSha2
  [Check.new loginPolicy (Digest.replicate 1), Check.new loginPolicy (Digest.replicate 2),
    Check.new loginPolicy (Digest.replicate 1)]

/-- The batch is rejected at its last index, and accepted without it. -/
theorem validate_batch_exact_logins :
    letI := vectorSha2
    validateBatch (repeatedLogins.take 2) 2 = .ok () ∧
    ∃ index c, IsLeast { index | Offends .enforce repeatedLogins index } index ∧ repeatedLogins[index]? = some c ∧
      (c.quotaMode ≠ .enforce →
        validateBatch repeatedLogins 3 = .error (.mixedQuotaModes .enforce index c.quotaMode)) ∧
      (c.quotaMode = .enforce → ∃ firstIndex, IsLeast (occurrences repeatedLogins c.counterKey) firstIndex ∧
        validateBatch repeatedLogins 3 = .error (.duplicateKey firstIndex index)) := by
  let := vectorSha2
  refine ⟨?_, ?_⟩
  · refine (validate_batch_exact (repeatedLogins.take 2) 2).1.2 ⟨by decide, by decide, ?_, by decide⟩
    intro c hc c' hc'
    rcases List.mem_pair.1 hc with rfl | rfl
    all_goals
      rcases List.mem_pair.1 hc' with rfl | rfl
      all_goals rfl
  · exact (validate_batch_exact repeatedLogins 3).2.2.2 (Check.new loginPolicy (Digest.replicate 1)) rfl (by decide)
      (by decide)

end Validation

/-! ## Routing -/

namespace BatchTopology

variable {config : MemoryStoreConfig} {inputs : List (Fin config.shardCount)}

/-- The groups are those of the distinct shards. -/
theorem ofIndexes_indexes (inputs : List (Fin config.shardCount)) :
    (ofIndexes inputs).shards.map (·.index) = indexes inputs := by
  unfold ofIndexes
  rw [List.map_map]
  exact List.map_id _

/-- Each with the number of its checks. -/
theorem ofIndexes_checkCounts (inputs : List (Fin config.shardCount)) :
    (ofIndexes inputs).checkCounts = (indexes inputs).map fun i => inputs.count i := by
  unfold checkCounts ofIndexes
  rw [List.map_map]
  rfl

/-- Every input is counted once. -/
theorem sum_checkCounts (inputs : List (Fin config.shardCount)) : (ofIndexes inputs).checkCounts.sum = inputs.length := by
  have hset : (indexes inputs).toFinset = inputs.toFinset := by
    ext i
    rw [List.mem_toFinset, List.mem_toFinset, mem_indexes]
  rw [ofIndexes_checkCounts, ← List.sum_toFinset _ (indexes_nodup inputs), hset]
  exact List.sum_toFinset_count_eq_length inputs

/-- Locking a topology is locking its shards in order. -/
theorem lockTopology_eq_lockShards {E : Type} (shards : BoundedShards config E)
    (topology : BatchTopology config.shardCount) :
    shards.lockTopology topology = shards.lockShards (topology.shards.map (·.index)) := by
  unfold BoundedShards.lockTopology BoundedShards.lockShards
  rw [List.mapM_map]
  rfl

/-- A failed attempt to lock shards stops at the first that is poisoned. -/
theorem lockShards_error {E : Type} {shards : BoundedShards config E} :
    ∀ {indexes : List (Fin config.shardCount)} {error : PoisonedShardError}, shards.lockShards indexes = .error error →
      ∃ (before : List (Fin config.shardCount)) (i : Fin config.shardCount) (after : List (Fin config.shardCount)),
        indexes = before ++ i :: after ∧ error = ⟨i⟩ ∧ (shards i).poisoned = true ∧
        ∀ j ∈ before, (shards j).poisoned = false := by
  intro indexes
  unfold BoundedShards.lockShards
  induction indexes with
  | nil => exact nofun
  | cons i rest ih =>
    intro error h
    rw [List.mapM_cons] at h
    -- the first shard is poisoned, or locked before the rest
    by_cases hpoisoned : (shards i).poisoned = true
    · have hlock : shards.lockShard i = .error ⟨i⟩ := if_pos hpoisoned
      rw [hlock] at h
      cases h
      exact ⟨[], i, rest, rfl, rfl, hpoisoned, nofun⟩
    · have hlock : shards.lockShard i = .ok i := if_neg hpoisoned
      rw [hlock, except_ok_bind] at h
      cases hrest : rest.mapM shards.lockShard with
      | ok locked =>
        rw [hrest] at h
        cases h
      | error e =>
        rw [hrest] at h
        cases h
        obtain ⟨before, j, after, rfl, rfl, hj, hbefore⟩ := ih hrest
        refine ⟨i :: before, j, after, rfl, rfl, hj, ?_⟩
        rw [List.forall_mem_cons]
        exact ⟨Bool.eq_false_iff.2 hpoisoned, hbefore⟩

/-- The budgets of a cleanup are those of its groups. -/
theorem cleanupLocked_requested {E : Type} {n removals now : ℕ} : ∀ {groups : List (Fin n × ℕ)} {data data' : Fin n → Shard E}
    {effects : List CleanupEffect}, cleanupLocked removals now groups data = .ok (effects, data') →
    effects.map (·.requested) = groups.map fun group => saturatingMul removals group.2 := by
  intro groups
  induction groups with
  | nil =>
    intro data data' effects h
    cases h
    rfl
  | cons group groups ih =>
    intro data data' effects h
    unfold cleanupLocked at h
    obtain ⟨⟨removed, shard⟩, -, h⟩ := except_bind_eq_ok.1 h
    obtain ⟨⟨rest, data''⟩, hrest, h⟩ := except_bind_eq_ok.1 h
    cases h
    rw [List.map_cons, List.map_cons, ih hrest]

/-- Budgets that fit `usize` are not cut off. -/
theorem sum_saturatingMul {removals : ℕ} : ∀ {counts : List ℕ},
    (∀ count ∈ counts, removals * count ≤ usizeMax) →
    (counts.map (saturatingMul removals)).sum = removals * counts.sum := by
  intro counts
  induction counts with
  | nil => exact fun _ => rfl
  | cons count counts ih =>
    intro h
    rw [List.forall_mem_cons] at h
    have hexact : saturatingMul removals count = removals * count := min_eq_left h.1
    rw [List.map_cons, List.sum_cons, List.sum_cons, ih h.2, hexact, Nat.mul_add]

end BatchTopology

/-- What routing promises about the inputs it accepts. -/
structure Grouped {config : MemoryStoreConfig} (inputs : List (Fin config.shardCount))
    (topology : BatchTopology config.shardCount) : Prop where
  ascending : (topology.shards.map (·.index)).Pairwise (· < ·)
  distinct : ∀ i, i ∈ topology.shards.map (·.index) ↔ i ∈ inputs
  counted : ∀ shard ∈ topology.shards, shard.checkCount = inputs.count shard.index
  positions : ∀ k i, inputs[k]? = some i → ∃ position shard, topology.shardPosition k = .ok position ∧
    topology.shards[position]? = some shard ∧ shard.index = i
  /-- The mutexes are acquired ascending, and the counts line up with the guards. -/
  locked : ∀ {E : Type} (shards : BoundedShards config E) locked, shards.lockTopology topology = .ok locked →
    locked.Pairwise (· < ·) ∧ locked.zip topology.checkCounts = locked.map fun i => (i, inputs.count i)
  /-- A lock that fails is the first poisoned one in that order. -/
  poisoned : ∀ {E : Type} (shards : BoundedShards config E) error, shards.lockTopology topology = .error error →
    ∃ (before : List (Fin config.shardCount)) (i : Fin config.shardCount) (after : List (Fin config.shardCount)),
      topology.shards.map (·.index) = before ++ i :: after ∧ error = ⟨i⟩ ∧
      (shards i).poisoned = true ∧ ∀ j ∈ before, (shards j).poisoned = false
  /-- The cleanup budgets of the batch are its per-check budget, once for each input. -/
  budgets : ∀ {E : Type} (shards : BoundedShards config E) locked, shards.lockTopology topology = .ok locked →
    ∀ now data effects data', cleanupLocked config.maxExpiredRemovalsPerCheck now
        (locked.zip topology.checkCounts) (data : Fin config.shardCount → Shard E) = .ok (effects, data') →
      (∀ count ∈ topology.checkCounts, config.maxExpiredRemovalsPerCheck * count ≤ usizeMax) →
      (effects.map (·.requested)).sum = config.maxExpiredRemovalsPerCheck * inputs.length

namespace BatchTopology

variable {config : MemoryStoreConfig} {inputs : List (Fin config.shardCount)}

/-- The counts line up with the shards. -/
theorem zip_checkCounts (inputs : List (Fin config.shardCount)) :
    (indexes inputs).zip (ofIndexes inputs).checkCounts = (indexes inputs).map fun i => (i, inputs.count i) := by
  have hmap : ((indexes inputs).map id).zip ((indexes inputs).map fun i => inputs.count i) = _ := List.zip_map'
  rw [List.map_id] at hmap
  rw [ofIndexes_checkCounts]
  exact hmap

/-- A topology that is locked holds its shards. -/
theorem ofIndexes_locked {E : Type} {shards : BoundedShards config E} {locked : List (Fin config.shardCount)}
    (h : shards.lockTopology (ofIndexes inputs) = .ok locked) : locked = indexes inputs := by
  rw [lockTopology_eq_lockShards, ofIndexes_indexes] at h
  exact (BoundedShards.lockShards_ok h).2

/-- **The topology of some inputs groups them.** -/
theorem ofIndexes_grouped (inputs : List (Fin config.shardCount)) : Grouped inputs (ofIndexes inputs) where
  ascending := by
    rw [ofIndexes_indexes]
    exact indexes_sorted inputs
  distinct i := by
    rw [ofIndexes_indexes]
    exact mem_indexes
  counted shard hshard := by
    obtain ⟨i, -, rfl⟩ := List.mem_map.1 hshard
    rfl
  positions k i hk := by
    have hmem : i ∈ indexes inputs := mem_indexes.2 (List.mem_of_getElem? hk)
    refine ⟨position (indexes inputs) i, ⟨i, inputs.count i⟩, ?_, ?_, rfl⟩
    · refine indexed_eq ?_
      unfold ofIndexes
      rw [List.getElem?_map, hk, Option.map_some]
    · unfold ofIndexes
      rw [List.getElem?_map, getElem_position (indexes_sorted inputs) hmem, Option.map_some]
  locked shards locked h := by
    rw [ofIndexes_locked h]
    exact ⟨indexes_sorted inputs, zip_checkCounts inputs⟩
  poisoned shards error h := by
    rw [lockTopology_eq_lockShards] at h
    exact lockShards_error h
  budgets shards locked h now data effects data' hcleanup hexact := by
    rw [cleanupLocked_requested hcleanup, ofIndexes_locked h, zip_checkCounts, List.map_map]
    have hcounts : (indexes inputs).map ((fun group => saturatingMul config.maxExpiredRemovalsPerCheck group.2) ∘
        fun i => (i, inputs.count i)) =
        (ofIndexes inputs).checkCounts.map (saturatingMul config.maxExpiredRemovalsPerCheck) := by
      rw [ofIndexes_checkCounts, List.map_map]
      rfl
    rw [hcounts, sum_saturatingMul hexact, sum_checkCounts]

end BatchTopology

/-- **Batch routing is a correct sorted grouping.** A list of shard indexes, no longer than a vector can
be, is grouped, or rejected with the smallest shard that could not hold what is routed to it. -/
theorem batch_routing_exact (config : MemoryStoreConfig) (inputs : List (Fin config.shardCount))
    (hlength : inputs.length ≤ usizeMax) :
    ∃ result, BatchTopology.new config inputs = .ok result ∧
      (∀ topology, result = .ok topology → Grouped inputs topology) ∧
      ((∃ error, result = .error error) ↔ ∃ i : Fin config.shardCount, config.shardCapacity i < inputs.count i) ∧
      ∀ error, result = .error error → ∃ i : Fin config.shardCount,
        IsLeast { i : Fin config.shardCount | config.shardCapacity i < inputs.count i } i ∧
        error = .batchExceedsShardCapacity i (inputs.count i) (config.shardCapacity i) := by
  refine ⟨_, BatchTopology.new_eq config hlength, ?_⟩
  cases hfind : (List.finRange config.shardCount).find? fun i : Fin config.shardCount =>
      decide (config.shardCapacity i < inputs.count i) with
  | none =>
    have hfits : ∀ i : Fin config.shardCount, ¬config.shardCapacity i < inputs.count i := by
      intro i
      have hnot := List.find?_eq_none.1 hfind i (List.mem_finRange i)
      rwa [decide_eq_true_eq] at hnot
    refine ⟨?_, ⟨?_, ?_⟩, nofun⟩
    · rintro topology ⟨⟩
      exact BatchTopology.ofIndexes_grouped inputs
    · rintro ⟨error, ⟨⟩⟩
    · rintro ⟨i, hi⟩
      exact absurd hi (hfits i)
  | some i =>
    obtain ⟨hover, before, after, hrange, hbefore⟩ := List.find?_eq_some_iff_append.1 hfind
    have hover := of_decide_eq_true hover
    refine ⟨nofun, ⟨fun _ => ⟨i, hover⟩, fun _ => ⟨_, rfl⟩⟩, ?_⟩
    rintro error ⟨⟩
    refine ⟨i, ⟨hover, fun j hj => ?_⟩, rfl⟩
    -- the shards are scanned in ascending order
    have hmem : j ∈ before ++ i :: after := by
      rw [← hrange]
      exact List.mem_finRange j
    rcases List.mem_append.1 hmem with h | h
    · have hover' : config.shardCapacity j < inputs.count j := hj
      have hnot := hbefore j h
      rw [decide_eq_true hover'] at hnot
      cases hnot
    · rcases List.mem_cons.1 h with rfl | h
      · exact le_rfl
      · have hsorted := List.pairwise_lt_finRange config.shardCount
        rw [hrange, List.pairwise_append, List.pairwise_cons] at hsorted
        exact (hsorted.2.1.1 j h).le

/-- Two shards of two keys. -/
def twoShards : MemoryStoreConfig :=
  ⟨4, 2, 8, 32, by decide, Nat.two_pos, by decide, MemoryStoreConfig.defaultRemovals_pos,
    MemoryStoreConfig.defaultBatch_pos, MemoryStoreConfig.defaultBatch_le⟩

/-- Inputs in any order are grouped, and one too many for a shard is rejected. -/
theorem batch_routing_exact_twoShards :
    (∃ topology, BatchTopology.new twoShards [(1 : Fin 2), (0 : Fin 2), (1 : Fin 2)] = .ok (.ok topology) ∧
      @Grouped twoShards [(1 : Fin 2), (0 : Fin 2), (1 : Fin 2)] topology) ∧
    ∃ error, BatchTopology.new twoShards [(1 : Fin 2), (1 : Fin 2), (1 : Fin 2)] = .ok (.error error) := by
  obtain ⟨result, hnew, hgrouped, hfails, -⟩ :=
    batch_routing_exact twoShards [(1 : Fin 2), (0 : Fin 2), (1 : Fin 2)] (by decide)
  obtain ⟨result', hnew', -, hfails', -⟩ :=
    batch_routing_exact twoShards [(1 : Fin 2), (1 : Fin 2), (1 : Fin 2)] (by decide)
  refine ⟨?_, ?_⟩
  · cases result with
    | ok topology => exact ⟨topology, hnew, hgrouped topology rfl⟩
    | error error =>
      have hover := hfails.1 ⟨error, rfl⟩
      exact absurd hover (by decide)
  · obtain ⟨error, rfl⟩ := hfails'.2 ⟨(1 : Fin 2), by decide⟩
    exact ⟨error, hnew'⟩

end Runlimit
