import Runlimit.Spec.Reference
import Runlimit.Proof.Prim

/-!
# Batches

What `validate_batch` guarantees about a batch it accepts (`validateBatch_ok`), what the
routing check guarantees (`overfull_eq_none`), and the fact about the left-to-right scan that
bounded removal rests on: two views of the shards that differ only where there is room for
the whole batch give the same scan (`scan_agree`).
-/

namespace Runlimit

variable {P E : Type} [RateLimitPolicy P] {config : MemoryStoreConfig}

/-! ## Validation -/

/-- A batch that passes the loop has different keys, none of them seen before, and one mode. -/
theorem validateBatchLoop_ok {mode : QuotaMode} : ∀ {checks : List (Check P)} {index : ℕ}
    {seen : Table CounterKey ℕ}, validateBatchLoop mode index seen checks = .ok () →
    (checks.map Check.counterKey).Nodup ∧ (∀ c ∈ checks, c.counterKey ∉ seen.keys) ∧
      ∀ c ∈ checks, c.quotaMode = mode := by
  intro checks
  induction checks with
  | nil => intro index seen _; simp
  | cons c rest ih =>
    intro index seen h
    unfold validateBatchLoop at h
    split at h
    · cases h
    · rename_i hmode
      rw [not_not] at hmode
      split at h
      · cases h
      · rename_i hlookup
        obtain ⟨hnodup, hseen, hmodes⟩ := ih h
        have hnot : c.counterKey ∉ seen.keys := Finmap.notMem_keys_iff.2 hlookup
        simp only [Finmap.keys_insert, Finset.mem_insert, not_or] at hseen
        refine ⟨?_, ?_, ?_⟩
        · rw [List.map_cons, List.nodup_cons]
          refine ⟨?_, hnodup⟩
          intro hmem
          obtain ⟨c', hc', heq⟩ := List.mem_map.1 hmem
          exact (hseen c' hc').1 heq
        · rw [List.forall_mem_cons]
          exact ⟨hnot, fun c' hc' => (hseen c' hc').2⟩
        · rw [List.forall_mem_cons]
          exact ⟨hmode, hmodes⟩

/-- A valid batch is not too large. -/
theorem validateBatch_length {checks : List (Check P)} {maximum : ℕ}
    (h : validateBatch checks maximum = .ok ()) : checks.length ≤ maximum := by
  unfold validateBatch at h
  split at h
  · cases h
  · split at h
    · cases h
    · rename_i hle
      exact Nat.not_lt.1 hle

/-- An accepted batch is not empty and its keys are distinct. -/
theorem validateBatch_ok {checks : List (Check P)} {maximum : ℕ}
    (h : validateBatch checks maximum = .ok ()) :
    checks ≠ [] ∧ (checks.map Check.counterKey).Nodup := by
  unfold validateBatch at h
  split at h
  · cases h
  · split at h
    · cases h
    · exact ⟨List.cons_ne_nil _ _, (validateBatchLoop_ok h).1⟩

/-- The checks of an accepted batch share the mode of the first. -/
theorem validateBatch_mode {first : Check P} {rest : List (Check P)} {maximum : ℕ}
    (h : validateBatch (first :: rest) maximum = .ok ()) : ∀ c ∈ first :: rest, c.quotaMode = first.quotaMode := by
  unfold validateBatch at h
  simp only at h
  split at h
  · cases h
  · exact (validateBatchLoop_ok h).2.2

/-! ## Routing -/

/-- No shard has more room than the store. -/
theorem shardCapacity_le (config : MemoryStoreConfig) (i : ℕ) : config.shardCapacity i ≤ config.maxKeys := by
  have hdiv := Nat.div_add_mod config.maxKeys config.shardCount
  have hle : config.maxKeys / config.shardCount ≤
      config.shardCount * (config.maxKeys / config.shardCount) :=
    Nat.le_mul_of_pos_left _ config.shardCount_pos
  unfold MemoryStoreConfig.shardCapacity
  split
  · omega
  · omega

theorem shardCapacity_le_usize (config : MemoryStoreConfig) (i : ℕ) : config.shardCapacity i ≤ usizeMax :=
  (shardCapacity_le config i).trans config.maxKeys_le

/-- A shard that is not yet full has room for one more pending key. -/
theorem room_count {n : ℕ} {used pending capacity : Fin n → ℕ} (h : ∀ i, used i + pending i ≤ capacity i) {i : Fin n}
    (hi : ¬capacity i ≤ used i + pending i) (j : Fin n) :
    used j + Function.update pending i (pending i + 1) j ≤ capacity j := by
  by_cases hj : j = i
  · subst hj
    rw [Function.update_self]
    omega
  · rw [Function.update_of_ne hj]
    exact h j

/-- A batch that is routed fits each of its shards. -/
theorem overfull_eq_none {checks : List (Check P)} (h : overfull config checks = none)
    (i : Fin config.shardCount) : demand config checks i ≤ config.shardCapacity i := by
  unfold overfull at h
  rw [Option.map_eq_none_iff] at h
  have := List.find?_eq_none.1 h i (List.mem_finRange i)
  rw [decide_eq_true_eq, Nat.not_lt] at this
  exact this

/-- A check is a demand on its own shard. -/
theorem demand_cons_self (c : Check P) (rest : List (Check P)) :
    demand config (c :: rest) (c.shard config) = demand config rest (c.shard config) + 1 := by
  unfold demand
  rw [List.map_cons, List.count_cons_self]

/-- It is none on the others. -/
theorem demand_cons_of_ne {c : Check P} {i : Fin config.shardCount} (h : i ≠ c.shard config)
    (rest : List (Check P)) : demand config (c :: rest) i = demand config rest i := by
  unfold demand
  rw [List.map_cons, List.count_cons_of_ne (Ne.symm h)]

/-- A budget that covers a check and the rest covers the rest. -/
theorem demand_skip {c : Check P} {rest : List (Check P)} {i : Fin config.shardCount} {x budget : ℕ}
    (h : x + demand config (c :: rest) i ≤ budget) : x + demand config rest i ≤ budget := by
  by_cases hi : i = c.shard config
  · rw [hi, demand_cons_self] at h
    rw [hi]
    omega
  · rw [demand_cons_of_ne hi] at h
    exact h

/-- Counting a check moves it from the demand to the count. -/
theorem demand_count {c : Check P} {rest : List (Check P)} {i : Fin config.shardCount}
    {count : Fin config.shardCount → ℕ} {budget : ℕ}
    (h : count i + demand config (c :: rest) i ≤ budget) :
    Function.update count (c.shard config) (count (c.shard config) + 1) i + demand config rest i ≤ budget := by
  by_cases hi : i = c.shard config
  · rw [hi, demand_cons_self] at h
    rw [hi, Function.update_self]
    omega
  · rw [demand_cons_of_ne hi] at h
    rw [Function.update_of_ne hi]
    exact h

/-- The shards of a batch are those of its checks. -/
theorem mem_touched {checks : List (Check P)} {i : Fin config.shardCount} :
    i ∈ touched config checks ↔ ∃ c ∈ checks, c.shard config = i := by
  unfold touched
  rw [List.mem_toFinset, List.mem_map]

theorem touched_singleton {c : Check P} : touched config [c] = {c.shard config} := rfl

/-- A single check reads the clock of its own shard. -/
theorem clampedMillis_singleton {observed : Fin config.shardCount → ℕ} {c : Check P} {reading : Duration} :
    clampedMillis observed [c] reading = max reading.asMillis (observed (c.shard config)) := by
  unfold clampedMillis
  rw [touched_singleton, Finset.sup_singleton]

/-- No touched shard is taken back in time. -/
theorem le_clampedMillis {observed : Fin config.shardCount → ℕ} {checks : List (Check P)}
    {reading : Duration} {i : Fin config.shardCount} (hi : i ∈ touched config checks) :
    observed i ≤ clampedMillis observed checks reading :=
  le_max_of_le_right (Finset.le_sup hi)

/-- The clamped time is one that a clock can show. -/
theorem clampedMillis_le {observed : Fin config.shardCount → ℕ} {checks : List (Check P)}
    {reading : Duration} (h : ∀ i, observed i ≤ maxMillis) :
    clampedMillis observed checks reading ≤ maxMillis :=
  max_le reading.asMillis_le (Finset.sup_le fun i _ => h i)

theorem clampedMillis_lt {observed : Fin config.shardCount → ℕ} {checks : List (Check P)}
    {reading : Duration} {bound : ℕ} (hreading : reading.asMillis < bound) (h : ∀ i, observed i < bound) :
    clampedMillis observed checks reading < bound :=
  max_lt hreading ((Finset.sup_lt_iff (Nat.zero_lt_of_lt hreading)).2 fun i _ => h i)

/-! ## Verdicts -/

/-- Evaluations read the entries of their own keys. -/
theorem evaluateAll_congr {alg : Algorithm P E} {now : ℕ} {entry entry' : Check P → Option (StoredEntry E)}
    {checks : List (Check P)} (h : ∀ c ∈ checks, entry c = entry' c) :
    evaluateAll alg now entry checks = evaluateAll alg now entry' checks := by
  unfold evaluateAll
  induction checks with
  | nil => rfl
  | cons c rest ih =>
    rw [List.forall_mem_cons] at h
    simp only [List.mapM_cons, h.1, ih h.2]

/-- A batch whose checks can be evaluated can be evaluated. -/
theorem evaluateAll_total {alg : Algorithm P E} {now : ℕ} {entry : Check P → Option (StoredEntry E)}
    {checks : List (Check P)} (h : ∀ c ∈ checks, ∃ verdict, alg.evaluate c now (entry c) = .ok verdict) :
    ∃ verdicts, evaluateAll alg now entry checks = .ok verdicts := by
  unfold evaluateAll
  induction checks with
  | nil => exact ⟨[], rfl⟩
  | cons c rest ih =>
    rw [List.forall_mem_cons] at h
    obtain ⟨verdict, hverdict⟩ := h.1
    obtain ⟨verdicts, hverdicts⟩ := ih h.2
    rw [List.mapM_cons, hverdict, hverdicts]
    exact ⟨_, rfl⟩

/-- The verdicts of a batch are those of its checks, in order. -/
theorem evaluateAll_ok {alg : Algorithm P E} {now : ℕ} {entry : Check P → Option (StoredEntry E)} :
    ∀ {checks : List (Check P)} {verdicts : List (Check P × Verdict E)},
    evaluateAll alg now entry checks = .ok verdicts →
    verdicts.map Prod.fst = checks ∧
      ∀ p ∈ verdicts, alg.evaluate p.1 now (entry p.1) = .ok p.2 := by
  intro checks
  induction checks with
  | nil =>
    intro verdicts h
    cases h
    exact ⟨rfl, fun p hp => absurd hp List.not_mem_nil⟩
  | cons c rest ih =>
    intro verdicts h
    unfold evaluateAll at h ih
    rw [List.mapM_cons, except_bind_eq_ok] at h
    obtain ⟨p, hp, h⟩ := h
    obtain ⟨v, hv, hpv⟩ := except_bind_eq_ok.1 hp
    cases hpv
    obtain ⟨tail, htail, hcons⟩ := except_bind_eq_ok.1 h
    cases hcons
    obtain ⟨hfst, hall⟩ := ih htail
    refine ⟨by rw [List.map_cons, hfst], ?_⟩
    rw [List.forall_mem_cons]
    exact ⟨hv, hall⟩

theorem allowances_ne_nil {verdicts : List (Check P × Verdict E)}
    (hallowed : ∀ p ∈ verdicts, ∃ e a, p.2 = .allowed e a) (h : verdicts ≠ []) :
    allowances verdicts ≠ [] := by
  cases verdicts with
  | nil => exact absurd rfl h
  | cons p rest =>
    obtain ⟨e, a, hv⟩ := hallowed p List.mem_cons_self
    obtain ⟨c, v⟩ := p
    simp only at hv
    subst hv
    exact List.cons_ne_nil a _

/-! ## Batch decisions -/

/-- An index of the batch can be denied. -/
theorem batchDenied_eq {index batchSize : ℕ} (h : index < batchSize) (denial : Denial) :
    BatchDecision.denied index batchSize denial = .ok ⟨.denied index batchSize denial⟩ := by
  unfold BatchDecision.denied validateBatchIndex
  rw [if_pos h]
  rfl

/-- An index of the batch can be denied for its quota. -/
theorem batchQuotaExceeded_eq {index batchSize : ℕ} (h : index < batchSize) (mode : QuotaMode)
    (denial : QuotaDenial) :
    BatchDecision.quotaExceeded mode index batchSize denial =
      .ok ⟨.quotaExceeded mode index batchSize denial⟩ := by
  unfold BatchDecision.quotaExceeded BatchOutcome.quotaExceeded BatchDecision.shadowDenied
    validateBatchIndex
  rw [batchDenied_eq h, if_pos h]
  split
  · rfl
  · rfl

/-- An allowed batch has an allowance. -/
theorem batchAllowed_eq {allowances : List Allowance} (h : allowances ≠ []) :
    BatchDecision.allowed allowances = .ok ⟨.allowed allowances⟩ := by
  unfold BatchDecision.allowed
  rw [if_neg (by rw [List.isEmpty_iff]; exact h)]

/-! ## The scan -/

/-- How many of the checks still to be scanned go to a shard. -/
def routed (config : MemoryStoreConfig) (i : Fin config.shardCount) (rest : List (Check P × Verdict E)) :
    ℕ :=
  (rest.map fun p => p.1.shard config).count i

/-- An allowed check is routed to its own shard. -/
theorem routed_cons_self (p : Check P × Verdict E) (rest : List (Check P × Verdict E)) :
    routed config (p.1.shard config) (p :: rest) = routed config (p.1.shard config) rest + 1 := by
  unfold routed
  rw [List.map_cons, List.count_cons_self]

/-- It is routed to no other. -/
theorem routed_cons_of_ne {i : Fin config.shardCount} {p : Check P × Verdict E}
    (h : i ≠ p.1.shard config) (rest : List (Check P × Verdict E)) :
    routed config i (p :: rest) = routed config i rest := by
  unfold routed
  rw [List.map_cons, List.count_cons_of_ne (Ne.symm h)]

section Scan

variable {present present' : CounterKey → Bool} {used used' : Fin config.shardCount → ℕ}
  {full : Fin config.shardCount → Denial}

/-- Two views of a shard agree, or both have room for all that is still to come. -/
def Agrees (present present' : CounterKey → Bool) (used used' pending pending' : Fin config.shardCount → ℕ)
    (rest : List (Check P × Verdict E)) (i : Fin config.shardCount) : Prop :=
  ((∀ key, config.shardIndex key = i → present key = present' key) ∧ used i = used' i ∧
      pending i = pending' i) ∨
    (used i + pending i + routed config i rest ≤ config.shardCapacity i ∧
      used' i + pending' i + routed config i rest ≤ config.shardCapacity i)

/-- A check of another shard changes nothing for this one. -/
theorem Agrees.skip {pending pending' : Fin config.shardCount → ℕ} {p : Check P × Verdict E}
    {rest : List (Check P × Verdict E)} {i : Fin config.shardCount} (hne : i ≠ p.1.shard config)
    (h : Agrees present present' used used' pending pending' (p :: rest) i) (x x' : ℕ) :
    Agrees present present' used used' (Function.update pending (p.1.shard config) x)
      (Function.update pending' (p.1.shard config) x') rest i := by
  unfold Agrees at h ⊢
  rw [routed_cons_of_ne hne] at h
  rw [Function.update_of_ne hne, Function.update_of_ne hne]
  exact h

/-- **A scan does not see what room hides.** -/
theorem scan_agree (size : ℕ) : ∀ (rest : List (Check P × Verdict E)) (index : ℕ)
    (pending pending' : Fin config.shardCount → ℕ),
    (∀ i, Agrees present present' used used' pending pending' rest i) →
    scan config size present used full index pending rest =
      scan config size present' used' full index pending' rest := by
  intro rest
  induction rest with
  | nil => intro index pending pending' _; rfl
  | cons p rest ih =>
    intro index pending pending' h
    obtain ⟨c, v⟩ := p
    cases v with
    | denied d => rfl
    | allowed e a =>
      unfold scan
      simp only
      have hother : ∀ i, i ≠ c.shard config → ∀ x x',
          Agrees present present' used used' (Function.update pending (c.shard config) x)
            (Function.update pending' (c.shard config) x') rest i :=
        fun i hne x x' => Agrees.skip (p := (c, Verdict.allowed e a)) hne (h i) x x'
      -- what stays to be shown of the check's own shard, once its new count is known
      have hnext : ∀ x x',
          Agrees present present' used used' (Function.update pending (c.shard config) x)
            (Function.update pending' (c.shard config) x') rest (c.shard config) →
          scan config size present used full (index + 1) (Function.update pending (c.shard config) x) rest =
            scan config size present' used' full (index + 1)
              (Function.update pending' (c.shard config) x') rest := by
        intro x x' hself
        refine ih (index + 1) _ _ fun i => ?_
        by_cases hi : i = c.shard config
        · rw [hi]; exact hself
        · exact hother i hi x x'
      have hkeep := hnext (pending (c.shard config)) (pending' (c.shard config))
      have hself := h (c.shard config)
      have hrouted : routed config (c.shard config) ((c, Verdict.allowed e a) :: rest) =
          routed config (c.shard config) rest + 1 := routed_cons_self (c, Verdict.allowed e a) rest
      unfold Agrees at hself
      rw [hrouted] at hself
      simp only [Function.update_eq_self, Agrees, Function.update_self] at hkeep hnext
      rcases hself with ⟨hpresent, hused, hpending⟩ | ⟨hroom, hroom'⟩
      · rw [hpresent c.counterKey rfl, hused, hpending]
        rw [hpending] at hkeep
        split
        · exact hkeep (Or.inl ⟨hpresent, hused, rfl⟩)
        · split
          · rfl
          · exact hnext _ _ (Or.inl ⟨hpresent, hused, rfl⟩)
      · have hlt : ¬ config.shardCapacity (c.shard config) ≤
            used (c.shard config) + pending (c.shard config) := by omega
        have hlt' : ¬ config.shardCapacity (c.shard config) ≤
            used' (c.shard config) + pending' (c.shard config) := by omega
        rw [if_neg hlt, if_neg hlt']
        -- a key may be present in one view only, so the two counts part
        have hmixed := hnext (pending (c.shard config)) (pending' (c.shard config) + 1)
        have hmixed' := hnext (pending (c.shard config) + 1) (pending' (c.shard config))
        simp only [Function.update_eq_self] at hmixed hmixed'
        split <;> split
        · exact hkeep (Or.inr ⟨by omega, by omega⟩)
        · exact hmixed (Or.inr ⟨by omega, by omega⟩)
        · exact hmixed' (Or.inr ⟨by omega, by omega⟩)
        · exact hnext _ _ (Or.inr ⟨by omega, by omega⟩)

/-- A scan that finds no denial has allowed every check. -/
theorem scan_none_allowed {size : ℕ} : ∀ {rest : List (Check P × Verdict E)} {index : ℕ}
    {pending : Fin config.shardCount → ℕ}, scan config size present used full index pending rest = none →
    ∀ p ∈ rest, ∃ entry allowance, p.2 = .allowed entry allowance := by
  intro rest
  induction rest with
  | nil => intro index pending _ p hp; cases hp
  | cons p rest ih =>
    intro index pending h
    obtain ⟨c, v⟩ := p
    cases v with
    | denied d => cases h
    | allowed e a =>
      rw [List.forall_mem_cons]
      refine ⟨⟨e, a, rfl⟩, ?_⟩
      unfold scan at h
      simp only at h
      split at h
      · exact ih h
      · split at h
        · cases h
        · exact ih h

/-- What a scan finds is a denial. -/
theorem scan_ne_allowed {size : ℕ} {a : List Allowance} : ∀ {rest : List (Check P × Verdict E)} {k : ℕ}
    {pending : Fin config.shardCount → ℕ},
    scan config size present used full k pending rest ≠ some (.allowed a) := by
  intro rest
  induction rest with
  | nil => intro k pending h; cases h
  | cons p rest ih =>
    intro k pending h
    obtain ⟨c, v⟩ := p
    cases v with
    | denied d =>
      unfold scan BatchOutcome.quotaExceeded at h
      split at h
      · cases h
      · cases h
    | allowed e a =>
      unfold scan at h
      simp only at h
      split at h
      · exact ih h
      · split at h
        · cases h
        · exact ih h

/-- The checks of a shard whose key has no entry. -/
def newKeys (config : MemoryStoreConfig) (present : CounterKey → Bool) (i : Fin config.shardCount)
    (checks : List (Check P)) : ℕ :=
  checks.countP fun c => decide (c.shard config = i) && !present c.counterKey

/-- **A scan that ends in a storage denial** has met a new key in a shard whose entries and
new keys exceed its capacity. -/
theorem scan_storage {size index size' : ℕ} {after : Option Delay} :
    ∀ {rest : List (Check P × Verdict E)} {k : ℕ} {pending : Fin config.shardCount → ℕ},
    scan config size present used full k pending rest =
      some (.denied index size' (.storageCapacity after)) →
    ∃ j c, (rest.map Prod.fst)[j]? = some c ∧ index = k + j ∧
      config.shardCapacity (c.shard config) <
        used (c.shard config) + pending (c.shard config) +
          newKeys config present (c.shard config) (rest.map Prod.fst) := by
  intro rest
  induction rest with
  | nil => intro k pending h; cases h
  | cons p rest ih =>
    intro k pending h
    obtain ⟨c, v⟩ := p
    -- the keys that the rest of the batch would add
    have hcons : ∀ i, newKeys config present i (((c, v) :: rest).map Prod.fst) =
        newKeys config present i (rest.map Prod.fst) +
          if c.shard config = i ∧ present c.counterKey = false then 1 else 0 := by
      intro i
      unfold newKeys
      rw [List.map_cons, List.countP_cons]
      simp only [Bool.and_eq_true, decide_eq_true_eq, Bool.not_eq_true']
    cases v with
    | denied d =>
      unfold scan BatchOutcome.quotaExceeded at h
      split at h
      · cases h
      · cases h
    | allowed e a =>
      unfold scan at h
      simp only at h
      split at h
      · obtain ⟨j, c', hget, hindex, hlt⟩ := ih h
        refine ⟨j + 1, c', hget, by omega, ?_⟩
        rw [hcons]
        omega
      · rename_i hpresent
        rw [Bool.not_eq_true] at hpresent
        split at h
        · -- this check is the first that finds its shard full
          rename_i hfull
          refine ⟨0, c, rfl, ?_, ?_⟩
          · rw [Option.some.injEq, BatchOutcome.denied.injEq] at h
            exact h.1.symm
          · rw [hcons, if_pos ⟨rfl, hpresent⟩]
            omega
        · obtain ⟨j, c', hget, hindex, hlt⟩ := ih h
          refine ⟨j + 1, c', hget, by omega, ?_⟩
          rw [hcons]
          -- a later check of the same shard finds one key more pending
          by_cases hsame : c'.shard config = c.shard config
          · rw [hsame, Function.update_self] at hlt
            rw [hsame, if_pos ⟨rfl, hpresent⟩]
            omega
          · rw [Function.update_of_ne hsame] at hlt
            omega

end Scan

end Runlimit
