import Runlimit.Proof.Representation
import Runlimit.Proof.GcraRate

/-!
# Failed and denied operations leave quota state intact

`Bounded.Answered` lists what an evaluated request does to the shards, and `StoreStep` what any
request does. Hence: an error changes nothing at all; a denial removes expired entries and
observes the time on the shards it touches (`Spared`); an allowance changes, of the entries that
have not expired, those of its own keys and no others (`Algorithm.Charges`).
-/

namespace Runlimit

/-! ## Allowed checks change their entry -/

section Charges

variable {P E : Type} [RateLimitPolicy P]

/-- An allowed check changes the entry of its key. -/
def Algorithm.Charges (alg : Algorithm P E) : Prop :=
  ∀ check now live entry allowance, alg.evaluate check now live = .ok (.allowed entry allowance) →
    live ≠ some entry

variable [Sha2]

/-- A fixed window counts the cost of the check. -/
theorem fixedWindow_charges : fixedWindow.Charges := by
  intro check now live entry allowance h
  have hcost := check.cost_pos
  have hverdict : fixedWindowVerdict check now live = .allowed entry allowance := Except.ok.inj h
  unfold fixedWindowVerdict at hverdict
  split at hverdict
  · simp
  · -- the entry stays, with more of its window used
    rename_i e
    split at hverdict
    · cases hverdict
    · cases hverdict
      intro heq
      have hused := congrArg (fun e : StoredEntry WindowEntry => e.value.used) (Option.some.inj heq)
      simp only at hused
      omega

/-- A cell rate moves the arrival time on. -/
theorem gcra_charges : gcra.Charges := by
  intro check now live entry allowance h heq
  have hpos : 0 < check.cost * check.policy.period.millis :=
    Nat.mul_pos check.cost_pos check.policy.period.pos
  have htat := (gcra_allowed h).1
  rw [heq, Option.map_some, Bucket.level_eq_getD, Option.getD_some] at htat
  have hle : entry.value.tatScaled ≤
      max entry.value.tatScaled (now * check.policy.quota.get) := le_max_left _ _
  omega

end Charges

variable {P E : Type} [RateLimitPolicy P] {config : MemoryStoreConfig}

/-! ## What a denial does to the shards -/

/-- All that a denial at `now` may do: remove expired entries, with their index entries, and observe
the time, on the shards it touches. -/
structure Spared (touched : Finset (Fin config.shardCount)) (now : ℕ) (shards shards' : BoundedShards config E) :
    Prop where
  live_eq : ∀ i key, (shards' i).data.live key now = (shards i).data.live key now
  untouched : ∀ i, i ∉ touched → shards' i = shards i
  poisoned_eq : ∀ i, (shards' i).poisoned = (shards i).poisoned
  capacity_eq : ∀ i, (shards' i).data.capacity = (shards i).data.capacity
  observed_eq : ∀ i ∈ touched, (shards' i).data.latestObservedMillis = now
  lookup_eq : ∀ i key, (shards' i).data.entries.lookup key = (shards i).data.entries.lookup key ∨
    ((shards' i).data.entries.lookup key = none ∧
      ∃ entry, (shards i).data.entries.lookup key = some entry ∧ entry.expiresAtMillis ≤ now)
  index_eq : ∀ i (e : Expiration), e ∈ (shards' i).data.expirations ↔
    e ∈ (shards i).data.expirations ∧ ∃ entry, (shards' i).data.entries.lookup e.key = some entry

/-- A part of the entries with their own index has that part of the index. -/
theorem Shard.Inv.mem_expirations {s s' : Shard E} (hs : s.Inv) (hs' : s'.Inv)
    (hkept : ∀ key entry, s'.entries.lookup key = some entry → s.entries.lookup key = some entry)
    (e : Expiration) :
    e ∈ s'.expirations ↔ e ∈ s.expirations ∧ ∃ entry, s'.entries.lookup e.key = some entry := by
  rw [hs.index, hs'.index]
  constructor
  · rintro ⟨entry, hentry, hexpires⟩
    exact ⟨⟨entry, hkept _ _ hentry, hexpires⟩, entry, hentry⟩
  · -- the entry that is left is the one that was indexed
    rintro ⟨⟨entry, hentry, hexpires⟩, entry', hentry'⟩
    have heq := hkept _ _ hentry'
    rw [hentry] at heq
    cases heq
    exact ⟨entry, hentry', hexpires⟩

namespace Bounded

variable {data : Data config E} {now : ℕ} {touched : Finset (Fin config.shardCount)}
  {budget : Fin config.shardCount → ℕ}

/-- A shard that the batch touches observes the time and is pruned. -/
theorem cleanup_of_mem (data : Data config E) (now : ℕ) (budget : Fin config.shardCount → ℕ)
    {i : Fin config.shardCount} (hi : i ∈ touched) :
    cleanup budget touched now data i = ((data i).recordObservedMillis now).prune now (budget i) := if_pos hi

/-- The others are left alone. -/
theorem cleanup_of_notMem (data : Data config E) (now : ℕ) (budget : Fin config.shardCount → ℕ)
    {i : Fin config.shardCount} (hi : i ∉ touched) : cleanup budget touched now data i = data i := if_neg hi

/-- No live entry is pruned. -/
theorem live_cleanup (hd : Inv data) (hmax : now ≤ maxMillis) (hnow : ∀ i ∈ touched, observed data i ≤ now)
    (i : Fin config.shardCount) (key : CounterKey) :
    (cleanup budget touched now data i).live key now = (data i).live key now := by
  by_cases hi : i ∈ touched
  · rw [cleanup_of_mem data now budget hi]
    exact Shard.live_prune ((hd.shard i).record (hnow i hi) hmax) key
  · rw [cleanup_of_notMem data now budget hi]

end Bounded

/-- **A cleanup spares the live entries.** -/
theorem spared_cleanup {shards : BoundedShards config E} (hd : Bounded.Inv shards.data) {now : ℕ}
    {touched : Finset (Fin config.shardCount)} (hmax : now ≤ maxMillis)
    (hnow : ∀ i ∈ touched, shards.observed i ≤ now) (budget : Fin config.shardCount → ℕ) :
    Spared touched now shards (shards.unlock (Bounded.cleanup budget touched now shards.data)) := by
  -- the shards that are touched are pruned; the others are as they were
  have hcases : ∀ i, Shard.Pruned now (budget i) ((shards i).data.recordObservedMillis now)
        (Bounded.cleanup budget touched now shards.data i) ∧ i ∈ touched ∨
      Bounded.cleanup budget touched now shards.data i = (shards i).data ∧ i ∉ touched := by
    intro i
    by_cases hi : i ∈ touched
    · left
      rw [Bounded.cleanup_of_mem _ _ _ hi]
      exact ⟨(Shard.prune_spec now (budget i) ((hd.shard i).record (hnow i hi) hmax)).2, hi⟩
    · exact Or.inr ⟨Bounded.cleanup_of_notMem _ _ _ hi, hi⟩
  have hinv := @Bounded.cleanup_inv _ _ _ _ _ budget hd hmax hnow
  have hlookup : ∀ i key, (Bounded.cleanup budget touched now shards.data i).entries.lookup key =
        (shards i).data.entries.lookup key ∨
      ((Bounded.cleanup budget touched now shards.data i).entries.lookup key = none ∧
        ∃ entry, (shards i).data.entries.lookup key = some entry ∧ entry.expiresAtMillis ≤ now) := by
    intro i key
    rcases hcases i with ⟨hpruned, -⟩ | ⟨hsame, -⟩
    · exact hpruned.lookup_eq key
    · rw [hsame]
      exact Or.inl rfl
  refine ⟨?_, ?_, fun i => rfl, ?_, ?_, hlookup, ?_⟩
  · exact Bounded.live_cleanup hd hmax hnow
  · intro i hi
    unfold BoundedShards.unlock
    rw [Bounded.cleanup_of_notMem _ _ _ hi]
    rfl
  · intro i
    rcases hcases i with ⟨hpruned, -⟩ | ⟨hsame, -⟩
    · exact hpruned.capacity_eq
    · exact congrArg Shard.capacity hsame
  · intro i hi
    exact Bounded.cleanup_observed hd hmax hnow hi
  · intro i e
    -- the index of a pruned shard follows from its entries
    refine (hd.shard i).mem_expirations (hinv.shard i) ?_ e
    intro key entry hentry
    rcases hlookup i key with heq | ⟨hnone, -⟩
    · exact heq.symm.trans hentry
    · rw [hnone] at hentry
      cases hentry

/-! ## What an allowance does to the live entries -/

namespace Bounded

/-- One entry is stored in one shard. -/
theorem lookup_update_put {data : Data config E} (j i : Fin config.shardCount) (key key' : CounterKey)
    (entry : StoredEntry E) :
    (Function.update data j ((data j).put key entry) i).entries.lookup key' =
      if i = j ∧ key' = key then some entry else (data i).entries.lookup key' := by
  by_cases hi : i = j
  · subst hi
    rw [Function.update_self, Shard.put_entries, Finmap.lookup_insert_if]
    by_cases hkey : key' = key
    · rw [if_pos hkey, if_pos ⟨rfl, hkey⟩]
    · rw [if_neg hkey, if_neg fun h => hkey h.2]
  · rw [Function.update_of_ne hi, if_neg fun h => hi h.1]

/-- Storing the entries of a batch leaves the other keys alone. -/
theorem lookup_putAll_of_notMem {i : Fin config.shardCount} {key : CounterKey} :
    ∀ {verdicts : List (Check P × Verdict E)} {data : Data config E},
    (∀ p ∈ verdicts, ¬ (p.1.counterKey = key ∧ p.1.shard config = i)) →
    (putAll verdicts data i).entries.lookup key = (data i).entries.lookup key := by
  intro verdicts
  induction verdicts with
  | nil => exact fun _ => rfl
  | cons p rest ih =>
    intro data hother
    obtain ⟨c, v⟩ := p
    rw [List.forall_mem_cons] at hother
    cases v with
    | denied denial => exact ih hother.2
    | allowed entry allowance =>
      unfold putAll
      rw [ih hother.2, lookup_update_put, if_neg]
      rintro ⟨hi, hkey⟩
      exact hother.1 ⟨hkey.symm, hi.symm⟩

/-- Each key of a batch has the entry of its verdict. -/
theorem lookup_putAll_of_mem {p : Check P × Verdict E} {entry : StoredEntry E} {allowance : Allowance}
    (hallowed : p.2 = .allowed entry allowance) :
    ∀ {verdicts : List (Check P × Verdict E)} {data : Data config E},
    (verdicts.map fun p => p.1.counterKey).Nodup → p ∈ verdicts →
    (putAll verdicts data (p.1.shard config)).entries.lookup p.1.counterKey = some entry := by
  intro verdicts
  induction verdicts with
  | nil =>
    intro data _ hp
    cases hp
  | cons q rest ih =>
    intro data hnodup hp
    rw [List.map_cons, List.nodup_cons] at hnodup
    rcases List.mem_cons.1 hp with rfl | hrest
    · obtain ⟨c, v⟩ := p
      cases hallowed
      unfold putAll
      rw [lookup_putAll_of_notMem, lookup_update_put, if_pos ⟨rfl, rfl⟩]
      rintro q hq ⟨hkey, -⟩
      exact hnodup.1 (List.mem_map.2 ⟨q, hq, hkey⟩)
    · obtain ⟨c, v⟩ := q
      cases v with
      | denied denial => exact ih hnodup.2 hrest
      | allowed e a => exact ih hnodup.2 hrest

end Bounded

/-- **An allowance changes the live entries of its own keys, and no others.** -/
theorem live_putAll_iff {alg : Algorithm P E} (hcharges : alg.Charges) {data : Bounded.Data config E} {now : ℕ}
    {checks : List (Check P)} (hd : Bounded.Inv data) (hmax : now ≤ maxMillis)
    (hnow : ∀ i ∈ touched config checks, Bounded.observed data i ≤ now)
    (budget : Fin config.shardCount → ℕ) {verdicts : List (Check P × Verdict E)}
    (hchecks : verdicts.map Prod.fst = checks) (hnodup : (checks.map Check.counterKey).Nodup)
    (hverdicts : ∀ p ∈ verdicts, alg.evaluate p.1 now (Bounded.entry now data p.1) = .ok p.2)
    (hallowed : ∀ p ∈ verdicts, ∃ entry allowance, p.2 = .allowed entry allowance)
    (i : Fin config.shardCount) (key : CounterKey) :
    (Bounded.putAll verdicts (Bounded.cleanup budget (touched config checks) now data) i).live key now ≠
        (data i).live key now ↔ ∃ c ∈ checks, c.counterKey = key ∧ c.shard config = i := by
  have hclean := @Bounded.live_cleanup _ _ _ _ _ budget hd hmax hnow
  constructor
  · intro hne
    by_contra hother
    -- a key without a check keeps its entry, and its live entry through the cleanup
    refine hne ?_
    rw [← hclean i key]
    unfold Shard.live
    rw [Bounded.lookup_putAll_of_notMem]
    rintro p hp hkey
    refine hother ⟨p.1, ?_, hkey⟩
    rw [← hchecks]
    exact List.mem_map_of_mem hp
  · rintro ⟨c, hc, rfl, rfl⟩
    rw [← hchecks] at hc
    obtain ⟨p, hp, rfl⟩ := List.mem_map.1 hc
    obtain ⟨entry, allowance, hp2⟩ := hallowed p hp
    have hverdict := hverdicts p hp
    rw [hp2] at hverdict
    have hnodup' : (verdicts.map fun p => p.1.counterKey).Nodup := by
      rw [← hchecks, List.map_map] at hnodup
      exact hnodup
    -- the entry that is stored is live, so it is what a later check finds
    have hshard : p.1.shard config ∈ touched config checks :=
      mem_touched.2 ⟨p.1, by rw [← hchecks]; exact hc, rfl⟩
    have hlive := (alg.expires_bound hverdict (Bounded.entry_bound hd (hnow _ hshard))).1
    have hstored := @Bounded.lookup_putAll_of_mem _ _ _ config _ _ _ hp2 verdicts
      (Bounded.cleanup budget (touched config checks) now data) hnodup' hp
    have hlive' := Shard.live_eq_some.2 ⟨hstored, hlive⟩
    rw [hlive']
    exact (hcharges _ _ _ _ _ hverdict).symm

/-! ## Both stores -/

/-- What an operation at `now` leaves of a store, by its response. -/
structure LeavesIntact (checks : List (Check P)) (now : ℕ) (response : Response)
    (shards shards' : BoundedShards config E) : Prop where
  denied : response.ending = .denied → Spared (touched config checks) now shards shards'
  failed : response.ending = .failed → shards' = shards
  allowed : response.ending = .allowed → ∀ i key, (shards' i).data.live key now ≠ (shards i).data.live key now ↔
    ∃ c ∈ checks, c.counterKey = key ∧ c.shard config = i
  returned : response.ending ≠ .unwound

/-- **One operation**, from a state that satisfies the invariant of the shards. -/
theorem StoreStep.leavesIntact {alg : Algorithm P E} (hcharges : alg.Charges) {shards shards' : BoundedShards config E}
    {reading : Duration} {request : Request P} {response : Response}
    (hstep : StoreStep alg shards (.tryAdmit (.ok reading) request) (.admission response) shards')
    (hd : Bounded.Inv shards.data) :
    LeavesIntact request.checks (clampedMillis shards.observed request.checks reading) response shards shards' := by
  cases hstep with
  | failed hresponse =>
    constructor
    · intro h
      simp [hresponse] at h
    · exact fun _ => rfl
    · intro h
      simp [hresponse] at h
    · simp [hresponse]
  | evaluated =>
    have hmax : clampedMillis shards.observed request.checks reading ≤ maxMillis :=
      clampedMillis_le fun i => (hd.shard i).observed_le
    have hnow : ∀ i ∈ touched config request.checks,
        Bounded.observed shards.data i ≤ clampedMillis shards.observed request.checks reading :=
      fun i hi => le_clampedMillis hi
    have hanswered := Bounded.answer_answered alg (clampedMillis shards.observed request.checks reading) request
      shards.data
    generalize Bounded.answer alg (clampedMillis shards.observed request.checks reading) request shards.data =
      result at hanswered
    cases hanswered with
    | failed hresponse =>
      constructor
      · intro h
        simp [hresponse] at h
      · exact fun _ => rfl
      · intro h
        simp [hresponse] at h
      · simp [hresponse]
    | denied hresponse budget =>
      constructor
      · exact fun _ => spared_cleanup hd hmax hnow budget
      · intro h
        simp [hresponse] at h
      · intro h
        simp [hresponse] at h
      · simp [hresponse]
    | allowed hresponse budget verdicts hchecks hnodup hverdicts hallowed =>
      constructor
      · intro h
        simp [hresponse] at h
      · intro h
        simp [hresponse] at h
      · exact fun _ => live_putAll_iff hcharges hd hmax hnow budget hchecks hnodup hverdicts hallowed
      · simp [hresponse]

/-- **Failed and denied operations leave quota state intact**, in both stores, from every state a run
reaches, for every request and clock reading. -/
theorem quota_state_intact [Sha2] (config : MemoryStoreConfig) :
    (∀ (requests : List (StoreRequest FixedWindowPolicy)) (request : Request FixedWindowPolicy) (reading : Duration),
      Set.InjOn Sha2.sha256 (FixedWindowPolicy.preimage ''
        storePolicies (requests ++ [.tryAdmit (.ok reading) request])) →
      LeavesIntact request.checks
        (clampedMillis (MemoryStore.reached config requests).observed request.checks reading)
        (MemoryStore.tryAdmit (.ok reading) request (MemoryStore.reached config requests)).1
        (MemoryStore.reached config requests)
        (MemoryStore.tryAdmit (.ok reading) request (MemoryStore.reached config requests)).2) ∧
    (∀ (requests : List (StoreRequest GcraPolicy)) (request : Request GcraPolicy) (reading : Duration),
      LeavesIntact request.checks
        (clampedMillis (GcraStore.reached config requests).observed request.checks reading)
        (GcraStore.tryAdmit (.ok reading) request (GcraStore.reached config requests)).1
        (GcraStore.reached config requests)
        (GcraStore.tryAdmit (.ok reading) request (GcraStore.reached config requests)).2) := by
  refine ⟨?_, ?_⟩
  · intro requests request reading hfree
    have hbefore : storePolicies requests ⊆ storePolicies (requests ++ [.tryAdmit (.ok reading) request]) := by
      rintro p ⟨r, hr, hp⟩
      exact ⟨r, List.mem_append_left _ hr, hp⟩
    have hrepresents := @MemoryStore.reached_represents _ config _ hfree requests hbefore
    have hlast : ∀ c ∈ request.checks,
        c.policy ∈ storePolicies (requests ++ [.tryAdmit (.ok reading) request]) := fun c hc =>
      ⟨_, List.mem_append_right _ (List.mem_singleton_self _), c, hc, rfl⟩
    obtain ⟨hstep, -⟩ := MemoryStore.perform_represents hfree hrepresents (.tryAdmit (.ok reading) request) hlast
    exact StoreStep.leavesIntact fixedWindow_charges hstep hrepresents.inv
  · intro requests request reading
    have hrepresents := GcraStore.reached_represents config requests
    obtain ⟨hstep, -⟩ := GcraStore.perform_represents hrepresents (.tryAdmit (.ok reading) request)
    exact StoreStep.leavesIntact gcra_charges hstep hrepresents.inv

/-- A second key is refused by a store for one key, and the entry of the first stays. -/
theorem quota_state_intact_refused :
    letI := vectorSha2
    (MemoryStore.tryAdmit (.ok refusedCall.reading) refusedCall.request
        (MemoryStore.reached tinyConfig [loginRequest (.ok (Duration.fromMillis 5))])).1.ending = .denied ∧
      Spared (touched tinyConfig refusedCall.request.checks)
        (clampedMillis (MemoryStore.reached tinyConfig [loginRequest (.ok (Duration.fromMillis 5))]).observed
          refusedCall.request.checks refusedCall.reading)
        (MemoryStore.reached tinyConfig [loginRequest (.ok (Duration.fromMillis 5))])
        (MemoryStore.tryAdmit (.ok refusedCall.reading) refusedCall.request
          (MemoryStore.reached tinyConfig [loginRequest (.ok (Duration.fromMillis 5))])).2 := by
  let := vectorSha2
  have hsub : storePolicies ([loginRequest (.ok (Duration.fromMillis 5))] ++
      [.tryAdmit (.ok refusedCall.reading) refusedCall.request]) ⊆ {loginPolicy, searchPolicy} := by
    rintro p ⟨request, hrequest, c, hc, rfl⟩
    rcases List.mem_pair.1 hrequest with rfl | rfl
    · rw [List.mem_singleton.1 hc]
      exact Or.inl rfl
    · rw [List.mem_singleton.1 hc]
      exact Or.inr rfl
  have hfree := vector_fixedWindow_injOn.mono (Set.image_mono hsub)
  have hdenied : (MemoryStore.tryAdmit (.ok refusedCall.reading) refusedCall.request
      (MemoryStore.reached tinyConfig [loginRequest (.ok (Duration.fromMillis 5))])).1.ending = .denied := by
    decide +kernel
  have hintact := (quota_state_intact tinyConfig).1 _ refusedCall.request refusedCall.reading hfree
  exact ⟨hdenied, hintact.denied hdenied⟩

end Runlimit
