import Runlimit.Proof.StoreSteps
import Runlimit.Proof.Unobservable

/-!
# The representation invariant of the sharded stores

What holds of the shards of both memory stores in every state a run of the whole interface
reaches, with clocks that panic at any operation: the expiration index is the index of the
entries, no shard exceeds its share of the capacity, every key is in its shard, and nothing
outlives the portable window. Main results:

* `prunesEarliest`: `prune_expired` removes as many expired entries as it may, the earliest ones;
* `StoreStep.represents`: every request keeps the invariant;
* `StoreStep.observed`: time moves back on a shard only when the shard is rebuilt;
* `representation_invariant`: the statement about both stores.
-/

namespace Runlimit

/-! ## Removal takes the earliest entries -/

namespace Shard

variable {E : Type} {s s' : Shard E} {now m count : ℕ}

/-- The keys of the entries that have expired. -/
def expired (s : Shard E) (now : ℕ) : Finset CounterKey :=
  s.entries.keys.filter fun key => (s.entries.lookup key).any fun entry => decide (entry.expiresAtMillis ≤ now)

/-- The expired keys are those of entries whose time has come. -/
theorem mem_expired {key : CounterKey} :
    key ∈ s.expired now ↔ ∃ entry, s.entries.lookup key = some entry ∧ entry.expiresAtMillis ≤ now := by
  unfold expired
  rw [Finset.mem_filter, Finmap.mem_keys_iff]
  constructor
  · rintro ⟨⟨entry, hentry⟩, hexpired⟩
    rw [hentry] at hexpired
    exact ⟨entry, hentry, by simpa using hexpired⟩
  · rintro ⟨entry, hentry, hexpired⟩
    refine ⟨⟨entry, hentry⟩, ?_⟩
    rw [hentry]
    simpa using hexpired

/-- `s'` is `s` without the `count` entries that expired earliest. -/
structure PrunesEarliest (now m count : ℕ) (s s' : Shard E) : Prop where
  count_eq : count = min m (s.expired now).card
  removed_card : (s.entries.keys \ s'.entries.keys).card = count
  removed_expired : s.entries.keys \ s'.entries.keys ⊆ s.expired now
  kept : ∀ key entry, s'.entries.lookup key = some entry → s.entries.lookup key = some entry
  earliest : ∀ key entry key' entry', s.entries.lookup key = some entry → s'.entries.lookup key = none →
    s'.entries.lookup key' = some entry' → entry.expiresAtMillis ≤ entry'.expiresAtMillis
  index : ∀ e : Expiration, e ∈ s'.expirations ↔
    ∃ entry, s'.entries.lookup e.key = some entry ∧ entry.expiresAtMillis = e.expiresAtMillis
  capacity_eq : s'.capacity = s.capacity
  observed_eq : s'.latestObservedMillis = s.latestObservedMillis

/-- Pruning writes nothing. -/
theorem Pruned.kept (h : Pruned now m s s') {key : CounterKey} {entry : StoredEntry E}
    (hentry : s'.entries.lookup key = some entry) : s.entries.lookup key = some entry := by
  rcases h.lookup_eq key with heq | ⟨hnone, -⟩
  · rw [← heq]
    exact hentry
  · rw [hnone] at hentry
    cases hentry

/-- Pruning removes the entries that expired first. -/
theorem prune_earliest (now m : ℕ) : ∀ {s : Shard E}, s.Inv → ∀ {key key' : CounterKey}
    {entry entry' : StoredEntry E}, s.entries.lookup key = some entry →
    (prune now m s).entries.lookup key = none → (prune now m s).entries.lookup key' = some entry' →
    entry.expiresAtMillis ≤ entry'.expiresAtMillis := by
  induction m with
  | zero =>
    intro s _ key key' entry entry' hentry hnone _
    unfold prune at hnone
    rw [hnone] at hentry
    cases hentry
  | succ m ih =>
    intro s hs key key' entry entry' hentry hnone hkept
    have hkept' := (prune_spec now (m + 1) hs).2.kept hkept
    unfold prune at hnone hkept
    split at hnone
    · rw [hnone] at hentry
      cases hentry
    · rename_i e hfirst
      split at hnone
      · rw [hnone] at hentry
        cases hentry
      · rename_i hlt
        simp only [hfirst, if_neg hlt] at hkept
        obtain ⟨he, hmin⟩ := Finset.first_eq_some.1 hfirst
        by_cases hkey : key = e.key
        · -- this is the entry the index returns first
          obtain ⟨first, hlookup, hexpires⟩ := (hs.index e).1 he
          rw [hkey, hlookup] at hentry
          cases hentry
          have hle := hmin ⟨entry'.expiresAtMillis, key'⟩ ((hs.index _).2 ⟨entry', hkept', rfl⟩)
          rcases Prod.Lex.le_iff.1 hle with h | h
          · exact hexpires.le.trans h.le
          · exact hexpires.le.trans h.1.le
        · refine ih (hs.remove he).1 ?_ hnone hkept
          simp only [Finmap.lookup_erase_if, if_neg hkey]
          exact hentry

/-- **`prune_expired` removes the earliest expired entries**, as many as it may. -/
theorem prunesEarliest (hs : s.Inv) (now m : ℕ) :
    ∃ count s', s.pruneExpired now m = .ok (count, s') ∧ PrunesEarliest now m count s s' := by
  refine ⟨_, _, pruneExpired_eq now m hs, ?_⟩
  obtain ⟨hinv, hpruned⟩ := prune_spec now m hs
  have hsubset : (prune now m s).entries.keys ⊆ s.entries.keys := by
    intro key hkey
    obtain ⟨entry, hentry⟩ := Finmap.mem_keys_iff.1 hkey
    exact Finmap.mem_keys_iff.2 ⟨entry, hpruned.kept hentry⟩
  have hcard : (s.entries.keys \ (prune now m s).entries.keys).card = s.used - (prune now m s).used :=
    Finset.card_sdiff_of_subset hsubset
  have hexpired : s.entries.keys \ (prune now m s).entries.keys ⊆ s.expired now := by
    intro key hkey
    rw [Finset.mem_sdiff, Finmap.mem_keys_iff, Finmap.notMem_keys_iff] at hkey
    obtain ⟨⟨entry, hentry⟩, hnone⟩ := hkey
    rcases hpruned.lookup_eq key with heq | ⟨-, hgone⟩
    · rw [heq, hentry] at hnone
      cases hnone
    · exact mem_expired.2 hgone
  have hused := hpruned.used_le
  refine ⟨?_, hcard, hexpired, fun key entry h => hpruned.kept h, ?_, hinv.index, hpruned.capacity_eq,
    hpruned.observed_eq⟩
  · rcases hpruned.done with hfull | hlive
    · have hle := Finset.card_le_card hexpired
      omega
    · -- nothing expired is left, so everything expired was removed
      have hall : s.expired now ⊆ s.entries.keys \ (prune now m s).entries.keys := by
        intro key hkey
        obtain ⟨entry, hentry, hle⟩ := mem_expired.1 hkey
        rw [Finset.mem_sdiff, Finmap.mem_keys_iff, Finmap.notMem_keys_iff]
        refine ⟨⟨entry, hentry⟩, ?_⟩
        rcases hpruned.lookup_eq key with heq | ⟨hnone, -⟩
        · rw [hentry] at heq
          have := hlive key entry heq
          omega
        · exact hnone
      have heq := congrArg Finset.card (Finset.Subset.antisymm hexpired hall)
      omega
  · intro key entry key' entry' hentry hnone hkept
    exact prune_earliest now m hs hentry hnone hkept

end Shard

/-! ## Keys stay in their shards -/

namespace Bounded

variable {P E : Type} [RateLimitPolicy P] {config : MemoryStoreConfig} {data : Data config E} {now : ℕ}

/-- Every stored key is in the shard the hash gives it. -/
def Routed (data : Data config E) : Prop := ∀ i key, key ∈ (data i).entries.keys → config.shardIndex key = i

/-- A cleanup keeps every key in its shard. -/
theorem Routed.cleanup (h : Routed data) {budget : Fin config.shardCount → ℕ}
    {touched : Finset (Fin config.shardCount)} (hd : Inv data) (hmax : now ≤ maxMillis)
    (hnow : ∀ i ∈ touched, observed data i ≤ now) : Routed (cleanup budget touched now data) := by
  intro i key hkey
  unfold Bounded.cleanup at hkey
  split at hkey
  · rename_i hi
    obtain ⟨entry, hentry⟩ := Finmap.mem_keys_iff.1 hkey
    have hpruned := (Shard.prune_spec now (budget i) ((hd.shard i).record (hnow i hi) hmax)).2
    exact h i key (Finmap.mem_keys_iff.2 ⟨entry, hpruned.kept hentry⟩)
  · exact h i key hkey

/-- Entries are put into the shards of their keys. -/
theorem Routed.putAll : ∀ {verdicts : List (Check P × Verdict E)} {data : Data config E}, Routed data →
    Routed (putAll verdicts data) := by
  intro verdicts
  induction verdicts with
  | nil => exact fun h => h
  | cons p rest ih =>
    intro data h
    obtain ⟨c, v⟩ := p
    cases v with
    | denied denial => exact ih h
    | allowed entry allowance =>
      refine ih ?_
      intro i key hkey
      by_cases hi : i = c.shard config
      · rw [hi, Function.update_self, Shard.put_entries, Finmap.keys_insert, Finset.mem_insert] at hkey
        rcases hkey with rfl | hkey
        · exact hi.symm
        · rw [hi]
          exact h _ _ hkey
      · rw [Function.update_of_ne hi] at hkey
        exact h i key hkey

/-- An answer keeps every key in its shard. -/
theorem answer_routed (alg : Algorithm P E) (request : Request P) (h : Routed data) (hd : Inv data)
    (hmax : now ≤ maxMillis) (hnow : ∀ i ∈ touched config request.checks, observed data i ≤ now) :
    Routed (answer alg now request data).2 := by
  obtain hanswered := answer_answered alg now request data
  generalize answer alg now request data = result at hanswered
  cases hanswered with
  | failed => exact h
  | denied _ budget => exact h.cleanup hd hmax hnow
  | allowed _ budget verdicts => exact (h.cleanup hd hmax hnow).putAll

/-- An answer keeps the shards well formed. -/
theorem answer_inv (alg : Algorithm P E) (request : Request P) (hd : Inv data)
    (hmax : now ≤ maxMillis) (hnow : ∀ i ∈ touched config request.checks, observed data i ≤ now) :
    Inv (answer alg now request data).2 := by
  cases request with
  | check c => exact check_inv alg hd hmax (hnow _ (mem_touched.2 ⟨c, List.mem_cons_self, rfl⟩))
  | checkAll checks => exact checkAll_inv alg hd hmax hnow

/-- An answer stores what its evaluations give, and keeps the rest. -/
theorem answer_stored (alg : Algorithm P E) {I : CounterKey → StoredEntry E → Prop} (request : Request P)
    (h : Stored I data) (hd : Inv data) (hmax : now ≤ maxMillis)
    (hnow : ∀ i ∈ touched config request.checks, observed data i ≤ now)
    (hI : ∀ c ∈ request.checks, ∀ e a, alg.evaluate c now (entry now data c) = .ok (.allowed e a) →
      I c.counterKey e) : Stored I (answer alg now request data).2 := by
  cases request with
  | check c =>
    exact check_stored alg hd hmax (hnow _ (mem_touched.2 ⟨c, List.mem_cons_self, rfl⟩)) h
      (hI c List.mem_cons_self)
  | checkAll checks => exact checkAll_stored alg hd hmax hnow h hI

/-- Putting entries does not observe a time. -/
theorem putAll_observed (i : Fin config.shardCount) : ∀ {verdicts : List (Check P × Verdict E)} {data : Data config E},
    observed (putAll verdicts data) i = observed data i := by
  intro verdicts
  induction verdicts with
  | nil => exact fun {data} => rfl
  | cons p rest ih =>
    intro data
    obtain ⟨c, v⟩ := p
    cases v with
    | denied denial => exact ih
    | allowed entry allowance => exact ih.trans (observed_update_put _ _ _ _)

/-- An admission observes its time on the shards it touches, or leaves them alone. -/
theorem answer_observed_cases (alg : Algorithm P E) (request : Request P) (hd : Inv data) (hmax : now ≤ maxMillis)
    (hnow : ∀ i ∈ touched config request.checks, observed data i ≤ now) (i : Fin config.shardCount) :
    observed (answer alg now request data).2 i = observed data i ∨
      (i ∈ touched config request.checks ∧ observed (answer alg now request data).2 i = now) := by
  have hcleanup : ∀ budget,
      observed (cleanup budget (touched config request.checks) now data) i = observed data i ∨
      (i ∈ touched config request.checks ∧
        observed (cleanup budget (touched config request.checks) now data) i = now) := by
    intro budget
    by_cases hi : i ∈ touched config request.checks
    · exact Or.inr ⟨hi, cleanup_observed hd hmax hnow hi⟩
    · left
      unfold observed cleanup
      rw [if_neg hi]
  obtain hanswered := answer_answered alg now request data
  generalize answer alg now request data = result at hanswered
  cases hanswered with
  | failed => exact Or.inl rfl
  | denied _ budget => exact hcleanup budget
  | allowed _ budget verdicts =>
    rw [putAll_observed]
    exact hcleanup budget

/-- An answer takes no shard back in time. -/
theorem answer_observed (alg : Algorithm P E) (request : Request P) (hd : Inv data) (hmax : now ≤ maxMillis)
    (hnow : ∀ i ∈ touched config request.checks, observed data i ≤ now) (i : Fin config.shardCount) :
    observed data i ≤ observed (answer alg now request data).2 i := by
  rcases answer_observed_cases alg request hd hmax hnow i with hsame | ⟨hi, htime⟩
  · exact hsame.ge
  · rw [htime]
    exact hnow i hi

end Bounded

/-! ## Requests keep the invariant -/

section Steps

variable {P E : Type} [RateLimitPolicy P] {config : MemoryStoreConfig} {alg : Algorithm P E}
  {I : CounterKey → StoredEntry E → Prop} {shards shards' : BoundedShards config E}
  {request : StoreRequest P} {response : StoreResponse}

/-- The invariant of the shards of a store; `I` is what the algorithm says of an entry. -/
structure BoundedShards.Represents (I : CounterKey → StoredEntry E → Prop) (shards : BoundedShards config E) :
    Prop where
  inv : Bounded.Inv shards.data
  routed : Bounded.Routed shards.data
  stored : Bounded.Stored I shards.data

theorem BoundedShards.Represents.of_empty {shards : BoundedShards config E} (hinv : Bounded.Inv shards.data)
    (hempty : ∀ i, (shards i).data.entries = ∅) : shards.Represents I where
  inv := hinv
  routed i key h := by
    unfold BoundedShards.data at h
    rw [hempty i] at h
    simp at h
  stored i key entry h := by
    unfold BoundedShards.data at h
    rw [hempty i] at h
    simp at h

/-- A new store is well formed. -/
theorem BoundedShards.Represents.new : (BoundedShards.new config : BoundedShards config E).Represents I :=
  .of_empty ⟨fun i => Shard.Inv.new (shardCapacity_le_usize config i), fun _ => rfl⟩ fun _ => rfl

/-- So is one that was cleared. -/
theorem Shard.Inv.clear {s : Shard E} (hs : s.Inv) : s.clear.Inv where
  index e := by simp [Shard.clear]
  expires_le key entry h := by simp [Shard.clear] at h
  observed_le := hs.observed_le
  used_le := Nat.zero_le _
  capacity_le := hs.capacity_le

/-- **Every request keeps the invariant.** -/
theorem StoreStep.represents (hstep : StoreStep alg shards request response shards')
    (hI : ∀ c ∈ request.checks, ∀ now live e a, alg.evaluate c now live = .ok (.allowed e a) →
      I c.counterKey e) (h : shards.Represents I) : shards'.Represents I := by
  cases hstep with
  | failed => exact h
  | @unwound panic request response locked =>
    -- a panic poisons, and writes nothing
    have hdata : (shards.poison locked).data = shards.data := by
      funext i
      unfold BoundedShards.data BoundedShards.poison
      split
      · rfl
      · rfl
    exact ⟨hdata ▸ h.inv, hdata ▸ h.routed, hdata ▸ h.stored⟩
  | @evaluated reading request =>
    have hmax : clampedMillis shards.observed request.checks reading ≤ maxMillis :=
      clampedMillis_le fun i => (h.inv.shard i).observed_le
    have hnow : ∀ i ∈ touched config request.checks,
        Bounded.observed shards.data i ≤ clampedMillis shards.observed request.checks reading :=
      fun i hi => le_clampedMillis hi
    exact ⟨Bounded.answer_inv alg request h.inv hmax hnow, Bounded.answer_routed alg request h.routed h.inv hmax hnow,
      Bounded.answer_stored alg request h.stored h.inv hmax hnow fun c hc e a => hI c hc _ _ e a⟩
  | cleared =>
    exact .of_empty ⟨fun i => (h.inv.shard i).clear, h.inv.capacity_eq⟩ fun _ => rfl
  | uncleared => exact h
  | recovered =>
    -- a poisoned shard is emptied, and the others stay
    have hrecovered : ∀ i, (shards.recoverPoisoned.2 i).data = (shards i).data ∨
        (shards.recoverPoisoned.2 i).data = Shard.new (config.shardCapacity i) := by
      intro i
      unfold BoundedShards.recoverPoisoned
      simp only
      split
      · exact Or.inr rfl
      · exact Or.inl rfl
    refine ⟨⟨?_, ?_⟩, ?_, ?_⟩
    · intro i
      unfold BoundedShards.data
      rcases hrecovered i with hi | hi
      · rw [hi]
        exact h.inv.shard i
      · rw [hi]
        exact Shard.Inv.new (shardCapacity_le_usize config i)
    · intro i
      unfold BoundedShards.data
      rcases hrecovered i with hi | hi
      · rw [hi]
        exact h.inv.capacity_eq i
      · rw [hi]
        rfl
    · intro i key hkey
      unfold BoundedShards.data at hkey
      rcases hrecovered i with hi | hi
      · rw [hi] at hkey
        exact h.routed i key hkey
      · rw [hi] at hkey
        simp [Shard.new] at hkey
    · intro i key entry hentry
      unfold BoundedShards.data at hentry
      rcases hrecovered i with hi | hi
      · rw [hi] at hentry
        exact h.stored i key entry hentry
      · rw [hi] at hentry
        simp [Shard.new] at hentry

/-- Time moves on, except on a shard that is rebuilt. -/
theorem StoreStep.observed (hstep : StoreStep alg shards request response shards') (h : shards.Represents I)
    (i : Fin config.shardCount) :
    shards.observed i ≤ shards'.observed i ∨
      (request = .recoverPoisoned ∧ (shards i).poisoned = true ∧
        shards' i = { data := Shard.new (config.shardCapacity i) }) := by
  cases hstep with
  | failed => exact Or.inl le_rfl
  | unwound =>
    left
    unfold BoundedShards.observed BoundedShards.poison
    split
    · exact le_rfl
    · exact le_rfl
  | @evaluated reading request =>
    exact Or.inl (Bounded.answer_observed alg request h.inv
      (clampedMillis_le fun i => (h.inv.shard i).observed_le) (fun i hi => le_clampedMillis hi) i)
  | cleared => exact Or.inl le_rfl
  | uncleared => exact Or.inl le_rfl
  | recovered =>
    by_cases hpoisoned : (shards i).poisoned = true
    · exact Or.inr ⟨rfl, hpoisoned, if_pos hpoisoned⟩
    · have hsame : shards.recoverPoisoned.2 i = shards i := if_neg hpoisoned
      left
      unfold BoundedShards.observed
      rw [hsame]

/-- Nothing observed is later than the readings of the clock. -/
theorem StoreStep.observed_lt (hstep : StoreStep alg shards request response shards') (h : shards.Represents I)
    {bound : ℕ} (hreading : ∀ reading call, request = .tryAdmit (.ok reading) call → reading.asMillis < bound)
    (hobserved : ∀ i, shards.observed i < bound) (i : Fin config.shardCount) : shards'.observed i < bound := by
  cases hstep with
  | failed => exact hobserved i
  | unwound =>
    -- a panic observes nothing
    have hsame : ∀ locked, (shards.poison locked).observed i = shards.observed i := by
      intro locked
      unfold BoundedShards.observed BoundedShards.poison
      split
      · rfl
      · rfl
    rw [hsame]
    exact hobserved i
  | @evaluated reading call =>
    have hmax : clampedMillis shards.observed call.checks reading ≤ maxMillis :=
      clampedMillis_le fun i => (h.inv.shard i).observed_le
    rcases Bounded.answer_observed_cases alg call h.inv hmax (fun i hi => le_clampedMillis hi) i with hsame | ⟨-, htime⟩
    · exact hsame.trans_lt (hobserved i)
    · exact htime.trans_lt (clampedMillis_lt (hreading reading call rfl) hobserved)
  | cleared => exact hobserved i
  | uncleared => exact hobserved i
  | recovered =>
    by_cases hpoisoned : (shards i).poisoned = true
    · -- a shard that was emptied has observed nothing yet
      have hfresh : shards.recoverPoisoned.2 i = { data := Shard.new (config.shardCapacity i) } := if_pos hpoisoned
      unfold BoundedShards.observed
      rw [hfresh]
      exact (Nat.zero_le _).trans_lt (hobserved i)
    · have hsame : shards.recoverPoisoned.2 i = shards i := if_neg hpoisoned
      unfold BoundedShards.observed
      rw [hsame]
      exact hobserved i

end Steps

/-! ## Runs -/

/-- The shares of the shards are the capacity of the store. -/
theorem sum_shardCapacity (config : MemoryStoreConfig) :
    ∑ i : Fin config.shardCount, config.shardCapacity i = config.maxKeys := by
  have hrest : config.maxKeys % config.shardCount ≤ config.shardCount :=
    (Nat.mod_lt _ config.shardCount_pos).le
  have hfilter : (Finset.range config.shardCount).filter (· < config.maxKeys % config.shardCount) =
      Finset.range (config.maxKeys % config.shardCount) := by
    ext i
    rw [Finset.mem_filter, Finset.mem_range, Finset.mem_range]
    omega
  rw [Fin.sum_univ_eq_sum_range (fun i => config.shardCapacity i)]
  unfold MemoryStoreConfig.shardCapacity
  rw [Finset.sum_add_distrib, Finset.sum_const, Finset.card_range, ← Finset.sum_filter, hfilter,
    Finset.sum_const, Finset.card_range, smul_eq_mul, smul_eq_mul, mul_one]
  exact Nat.div_add_mod _ _

/-- The representation invariant, in the terms of the shards. -/
structure Representation {E : Type} (config : MemoryStoreConfig) (shards : BoundedShards config E) : Prop where
  /-- The index holds one pair for each entry, and nothing else. -/
  index : ∀ i (e : Expiration), e ∈ (shards i).data.expirations ↔
    ∃ entry, (shards i).data.entries.lookup e.key = some entry ∧ entry.expiresAtMillis = e.expiresAtMillis
  used_le : ∀ i, (shards i).data.used ≤ config.shardCapacity i
  capacities : ∑ i : Fin config.shardCount, config.shardCapacity i = config.maxKeys
  total_le : ∑ i, (shards i).data.used ≤ config.maxKeys
  routed : ∀ i key, key ∈ (shards i).data.entries.keys → config.shardIndex key = i
  expires_le : ∀ i key entry, (shards i).data.entries.lookup key = some entry →
    entry.expiresAtMillis ≤ (shards i).data.latestObservedMillis + maxWindowMillis
  prunes : ∀ i now m, ∃ count s', (shards i).data.pruneExpired now m = .ok (count, s') ∧
    Shard.PrunesEarliest now m count (shards i).data s'

theorem BoundedShards.Represents.representation {E : Type} {config : MemoryStoreConfig}
    {I : CounterKey → StoredEntry E → Prop} {shards : BoundedShards config E} (h : shards.Represents I) :
    Representation config shards where
  index i := (h.inv.shard i).index
  used_le i := (h.inv.shard i).used_le.trans_eq (h.inv.capacity_eq i)
  capacities := sum_shardCapacity config
  total_le := by
    rw [← sum_shardCapacity config]
    exact Finset.sum_le_sum fun i _ => (h.inv.shard i).used_le.trans_eq (h.inv.capacity_eq i)
  routed := h.routed
  expires_le i := (h.inv.shard i).expires_le
  prunes i now m := Shard.prunesEarliest (h.inv.shard i) now m

/-- The policies of the requests of a run. -/
def storePolicies {P : Type} [RateLimitPolicy P] (requests : List (StoreRequest P)) : Set P :=
  { p | ∃ request ∈ requests, ∃ c ∈ request.checks, c.policy = p }

namespace MemoryStore

variable [Sha2] {config : MemoryStoreConfig} {known : Set FixedWindowPolicy}

/-- What an entry says: a known policy has its key, and of that policy it holds some usage within
the limit. -/
def Charged (known : Set FixedWindowPolicy) (key : CounterKey) (entry : StoredEntry WindowEntry) : Prop :=
  (∃ p ∈ known, p.fingerprint = key.fingerprint) ∧ 1 ≤ entry.value.used ∧ WithinLimit known key entry

/-- An allowed check stores a count within the limit of every policy of its fingerprint. -/
theorem charged_verdict (hfree : Set.InjOn Sha2.sha256 (FixedWindowPolicy.preimage '' known))
    {c : Check FixedWindowPolicy} (hc : c.policy ∈ known) {now : ℕ} {live : Option (StoredEntry WindowEntry)}
    {entry : StoredEntry WindowEntry} {allowance : Allowance}
    (h : fixedWindow.evaluate c now live = .ok (.allowed entry allowance)) :
    Charged known c.counterKey entry := by
  refine ⟨⟨c.policy, hc, rfl⟩, ?_, withinLimit_verdict hfree hc h⟩
  have hcost := c.cost_pos
  have hverdict : fixedWindowVerdict c now live = .allowed entry allowance := Except.ok.inj h
  unfold fixedWindowVerdict at hverdict
  split at hverdict
  · cases hverdict
    exact hcost
  · split at hverdict
    · cases hverdict
    · cases hverdict
      simp only
      omega

/-- What a run of requests keeps. -/
theorem perform_represents (hfree : Set.InjOn Sha2.sha256 (FixedWindowPolicy.preimage '' known))
    {shards : BoundedShards config WindowEntry} (h : shards.Represents (Charged known))
    (request : StoreRequest FixedWindowPolicy) (hrequest : ∀ c ∈ request.checks, c.policy ∈ known) :
    StoreStep fixedWindow shards request (perform request shards).1 (perform request shards).2 ∧
      (perform request shards).2.Represents (Charged known) := by
  have hstep := perform_step h.inv (fun i key entry hentry => (h.stored i key entry hentry).2.2) request hrequest
  exact ⟨hstep, hstep.represents (fun c hc now live e a => charged_verdict hfree (hrequest c hc)) h⟩

/-- **Every reachable window store** is well formed. -/
theorem reached_represents (hfree : Set.InjOn Sha2.sha256 (FixedWindowPolicy.preimage '' known))
    {requests : List (StoreRequest FixedWindowPolicy)} (hknown : storePolicies requests ⊆ known) :
    (reached config requests).Represents (Charged known) := by
  have hstep : ∀ (request : StoreRequest FixedWindowPolicy) (shards : BoundedShards config WindowEntry),
      (∀ c ∈ request.checks, c.policy ∈ known) → shards.Represents (Charged known) →
      (perform request shards).2.Represents (Charged known) :=
    fun request _ hrequest h => (perform_represents hfree h request hrequest).2
  have hrequests : ∀ request ∈ requests, ∀ c ∈ request.checks, c.policy ∈ known :=
    fun request hrequest c hc => hknown ⟨request, hrequest, c, hc, rfl⟩
  exact Machine.final_inv hstep .new hrequests

end MemoryStore

namespace GcraStore

variable [Sha2] {config : MemoryStoreConfig}

theorem perform_represents {shards : BoundedShards config GcraEntry} (h : shards.Represents fun _ _ => True)
    (request : StoreRequest GcraPolicy) :
    StoreStep gcra shards request (perform request shards).1 (perform request shards).2 ∧
      (perform request shards).2.Represents fun _ _ => True := by
  have hstep := perform_step h.inv request
  exact ⟨hstep, hstep.represents (fun _ _ _ _ _ _ _ => trivial) h⟩

/-- **Every reachable GCRA store** is well formed. -/
theorem reached_represents (config : MemoryStoreConfig) (requests : List (StoreRequest GcraPolicy)) :
    (reached config requests).Represents fun _ _ => True := by
  have hstep : ∀ (request : StoreRequest GcraPolicy) (shards : BoundedShards config GcraEntry), True →
      (shards.Represents fun _ _ => True) → (perform request shards).2.Represents fun _ _ => True :=
    fun request _ _ h => (perform_represents h request).2
  exact Machine.final_inv hstep .new fun _ _ => trivial

end GcraStore

/-- **The representation invariant of both stores**, for every configuration and every run of their
interface: the invariant of the shards, usage between one and the limit in the fixed-window
store, and time that moves back on a shard only when the shard is rebuilt. -/
theorem representation_invariant [Sha2] (config : MemoryStoreConfig) :
    (∀ requests : List (StoreRequest FixedWindowPolicy),
      Set.InjOn Sha2.sha256 (FixedWindowPolicy.preimage '' storePolicies requests) →
      Representation config (MemoryStore.reached config requests) ∧
      (∀ i key entry, (MemoryStore.reached config requests i).data.entries.lookup key = some entry →
        1 ≤ entry.value.used ∧ (∃ p ∈ storePolicies requests, p.fingerprint = key.fingerprint) ∧
        ∀ p ∈ storePolicies requests, p.fingerprint = key.fingerprint → entry.value.used ≤ p.limit.get) ∧
      ∀ before request after, requests = before ++ request :: after → ∀ i,
        (MemoryStore.reached config before).observed i ≤
            (MemoryStore.reached config (before ++ [request])).observed i ∨
          (request = .recoverPoisoned ∧ (MemoryStore.reached config before i).poisoned = true ∧
            MemoryStore.reached config (before ++ [request]) i =
              { data := Shard.new (config.shardCapacity i) })) ∧
    (∀ requests : List (StoreRequest GcraPolicy),
      Representation config (GcraStore.reached config requests) ∧
      ∀ before request after, requests = before ++ request :: after → ∀ i,
        (GcraStore.reached config before).observed i ≤
            (GcraStore.reached config (before ++ [request])).observed i ∨
          (request = .recoverPoisoned ∧ (GcraStore.reached config before i).poisoned = true ∧
            GcraStore.reached config (before ++ [request]) i =
              { data := Shard.new (config.shardCapacity i) })) := by
  refine ⟨?_, ?_⟩
  · intro requests hfree
    have hrepresents := @MemoryStore.reached_represents _ config _ hfree requests subset_rfl
    refine ⟨hrepresents.representation, ?_, ?_⟩
    · intro i key entry hentry
      obtain ⟨hpolicy, hused, hwithin⟩ := hrepresents.stored i key entry hentry
      exact ⟨hused, hpolicy, hwithin⟩
    · rintro before request after rfl i
      -- the policies of the run so far are among all
      have hbefore : storePolicies before ⊆ storePolicies (before ++ request :: after) := by
        rintro p ⟨r, hr, hp⟩
        exact ⟨r, List.mem_append_left _ hr, hp⟩
      have hsplit := @MemoryStore.reached_represents _ config _ hfree before hbefore
      obtain ⟨hstep, -⟩ := MemoryStore.perform_represents hfree hsplit request fun c hc =>
        ⟨request, List.mem_append_right _ List.mem_cons_self, c, hc, rfl⟩
      unfold MemoryStore.reached
      rw [Machine.final_append]
      exact hstep.observed hsplit i
  · intro requests
    refine ⟨(GcraStore.reached_represents config requests).representation, ?_⟩
    rintro before request after rfl i
    have hbefore := GcraStore.reached_represents config before
    obtain ⟨hstep, -⟩ := GcraStore.perform_represents hbefore request
    unfold GcraStore.reached
    rw [Machine.final_append]
    exact hstep.observed hbefore i

/-- A check of the login policy. -/
def loginRequest (clock : Panics Duration) : letI := vectorSha2; StoreRequest FixedWindowPolicy :=
  letI := vectorSha2
  .tryAdmit clock (.check (Check.new loginPolicy (Digest.replicate 1)))

/-- A clock that panics poisons the one shard of a store, and the recovery rebuilds it. -/
theorem representation_invariant_recovery :
    letI := vectorSha2
    Representation pairConfig (MemoryStore.reached pairConfig [loginRequest (.ok (Duration.fromMillis 5)),
        loginRequest (.error .clock), .recoverPoisoned]) ∧
      (∀ i, (MemoryStore.reached pairConfig [loginRequest (.ok (Duration.fromMillis 5)),
        loginRequest (.error .clock)] i).poisoned = true) ∧
      (∀ i, (MemoryStore.reached pairConfig [loginRequest (.ok (Duration.fromMillis 5)),
        loginRequest (.error .clock)]).observed i = 5) ∧
      ∀ i, (MemoryStore.reached pairConfig [loginRequest (.ok (Duration.fromMillis 5)),
        loginRequest (.error .clock), .recoverPoisoned]).observed i = 0 := by
  let := vectorSha2
  have hsub : storePolicies [loginRequest (.ok (Duration.fromMillis 5)), loginRequest (.error .clock),
      .recoverPoisoned] ⊆ {loginPolicy, searchPolicy} := by
    rintro p ⟨request, hrequest, c, hc, rfl⟩
    simp only [List.mem_cons, List.not_mem_nil, or_false] at hrequest
    rcases hrequest with rfl | rfl | rfl
    · rw [List.mem_singleton.1 hc]
      exact Or.inl rfl
    · rw [List.mem_singleton.1 hc]
      exact Or.inl rfl
    · cases hc
  have hfree := vector_fixedWindow_injOn.mono (Set.image_mono hsub)
  obtain ⟨hrepresentation, -, -⟩ := (representation_invariant pairConfig).1 _ hfree
  exact ⟨hrepresentation, by decide +kernel, by decide +kernel, by decide +kernel⟩

end Runlimit
