import Runlimit.Proof.Representation
import Runlimit.Proof.AttemptSteps

/-!
# Nothing in the memory backends unwinds

Every `expect`, index, `debug_assert!` and unchecked addition of the memory backends is a
way to unwind in the model, and `StoreStep` has only one step that unwinds: the clock panics.
A run whose clocks do not panic therefore never unwinds, and it poisons nothing.

* `StoreStep.returned`: a request whose clock does not panic returns, and poisons no shard;
* `BoundedShards.stats_eq`: the statistics of unpoisoned shards add up without overflow;
* `no_panic_reachable`: the statement about both stores and the attempt limiter.
-/

namespace Runlimit

/-! ## The stores -/

section Stores

variable {P E : Type} [RateLimitPolicy P] {config : MemoryStoreConfig} {alg : Algorithm P E}
  {I : CounterKey → StoredEntry E → Prop} {shards shards' : BoundedShards config E}
  {request : StoreRequest P} {response : StoreResponse}

/-- The clock of an admission does not panic. -/
def StoreRequest.ReadsClock (request : StoreRequest P) : Prop :=
  ∀ clock call, request = .tryAdmit clock call → ∃ reading, clock = .ok reading

/-- The call returned, and its counts fit `usize`. -/
def StoreResponse.Returned : StoreResponse → Prop
  | .admission response => response.ending ≠ .unwound
  | .clear _ => True
  | .recovered count => count ≤ usizeMax

/-- **A request whose clock does not panic returns**, and no shard is poisoned after it that was not
before. -/
theorem StoreStep.returned (hstep : StoreStep alg shards request response shards') (hclock : request.ReadsClock)
    (hcount : ∀ count, response = .recovered count → count ≤ usizeMax) :
    response.Returned ∧ ∀ i, (shards' i).poisoned = true → (shards i).poisoned = true := by
  cases hstep with
  | failed hresponse =>
    refine ⟨?_, fun i h => h⟩
    intro hunwound
    rw [hresponse] at hunwound
    cases hunwound
  | unwound =>
    -- only a clock that panics unwinds
    obtain ⟨reading, hreading⟩ := hclock _ _ rfl
    cases hreading
  | @evaluated reading call =>
    refine ⟨?_, fun i h => h⟩
    obtain hanswered := Bounded.answer_answered alg (clampedMillis shards.observed call.checks reading) call shards.data
    generalize Bounded.answer alg (clampedMillis shards.observed call.checks reading) call shards.data = result
      at hanswered
    intro hunwound
    cases hanswered with
    | failed hresponse =>
      rw [hresponse] at hunwound
      cases hunwound
    | denied hresponse =>
      rw [hresponse] at hunwound
      cases hunwound
    | allowed hresponse =>
      rw [hresponse] at hunwound
      cases hunwound
  | cleared => exact ⟨trivial, fun i h => h⟩
  | uncleared => exact ⟨trivial, fun i h => h⟩
  | @recovered count =>
    refine ⟨hcount count rfl, ?_⟩
    intro i h
    by_contra hpoisoned
    -- a recovery changes the poisoned shards only
    have hsame : shards.recoverPoisoned.2 i = shards i := if_neg hpoisoned
    rw [hsame] at h
    exact hpoisoned h

/-- There are no more shards than keys. -/
theorem shardCount_le_usize (config : MemoryStoreConfig) : config.shardCount ≤ usizeMax :=
  config.shardCount_le.trans config.maxKeys_le

/-- So the number of recovered shards fits `usize`. -/
theorem BoundedShards.recoverPoisoned_le (shards : BoundedShards config E) :
    shards.recoverPoisoned.1 ≤ usizeMax := by
  have hle : shards.recoverPoisoned.1 ≤ (List.finRange config.shardCount).length := List.countP_le_length
  rw [List.length_finRange] at hle
  exact hle.trans (shardCount_le_usize config)

/-- A sum is added up without overflow if the total fits. -/
theorem foldlM_addUsize {α : Type} (f : α → ℕ) : ∀ {l : List α} {total : ℕ}, total + (l.map f).sum ≤ usizeMax →
    l.foldlM (fun total a => addUsize total (f a)) total = .ok (total + (l.map f).sum) := by
  intro l
  induction l with
  | nil =>
    intro total _
    rw [List.map_nil, List.sum_nil]
    rfl
  | cons a rest ih =>
    intro total h
    rw [List.map_cons, List.sum_cons] at h
    rw [List.foldlM_cons, addUsize_eq (by omega), except_ok_bind, ih (by omega), List.map_cons, List.sum_cons,
      Nat.add_assoc]

/-- **The statistics of unpoisoned shards** add up, to no more than the capacity. -/
theorem BoundedShards.stats_eq (h : shards.Represents I) (hunpoisoned : ∀ i, (shards i).poisoned = false) :
    ∃ entries ≤ config.maxKeys, shards.stats = .ok (.ok ⟨entries, config.maxKeys, config.shardCount⟩) := by
  have hsum : ((List.finRange config.shardCount).map fun i => (shards i).data.used).sum =
      ∑ i, (shards i).data.used := by
    rw [← List.sum_ofFn, List.ofFn_eq_map]
  -- the shards' capacities add up to that of the store
  have htotal := h.representation.total_le
  rw [← hsum] at htotal
  have hlock : shards.lockShards (List.finRange config.shardCount) = .ok (List.finRange config.shardCount) := by
    have hid : ∀ i ∈ List.finRange config.shardCount, shards.lockShard i = .ok (id i) := by
      intro i _
      unfold lockShard
      rw [if_neg (Bool.eq_false_iff.1 (hunpoisoned i))]
      rfl
    unfold lockShards
    rw [mapM_ok hid, List.map_id]
  have hfold := @foldlM_addUsize _ (fun i => (shards i).data.used) (List.finRange config.shardCount) 0
    (by rw [Nat.zero_add]; exact htotal.trans config.maxKeys_le)
  rw [Nat.zero_add] at hfold
  refine ⟨_, htotal, ?_⟩
  unfold stats
  rw [hlock]
  simp only [hfold, except_ok_bind, except_pure]

/-- What a run whose clocks do not panic keeps. -/
structure BoundedShards.Healthy (I : CounterKey → StoredEntry E → Prop) (shards : BoundedShards config E) : Prop where
  represents : shards.Represents I
  unpoisoned : ∀ i, (shards i).poisoned = false

/-- A new store is healthy. -/
theorem BoundedShards.Healthy.new : (BoundedShards.new config : BoundedShards config E).Healthy I :=
  ⟨.new, fun _ => rfl⟩

/-- And stays so. -/
theorem BoundedShards.Healthy.step (h : shards.Healthy I) (hstep : StoreStep alg shards request response shards')
    (hrepresents : shards'.Represents I) (hclock : request.ReadsClock)
    (hcount : ∀ count, response = .recovered count → count ≤ usizeMax) :
    response.Returned ∧ shards'.Healthy I := by
  obtain ⟨hreturned, hpoisoned⟩ := hstep.returned hclock hcount
  refine ⟨hreturned, hrepresents, ?_⟩
  intro i
  rw [Bool.eq_false_iff]
  intro h'
  exact Bool.eq_false_iff.1 (h.unpoisoned i) (hpoisoned i h')

end Stores

/-! ## The attempt limiter -/

/-- The call unwound. -/
def AttemptResponse.unwound : AttemptResponse → Bool
  | .tryAdmit .panicked => true
  | .complete .panicked => true
  | _ => false

/-- **A call of the attempt limiter returns**, and leaves the mutex unpoisoned. -/
theorem MemoryAttemptLimiter.serve_returned [Sha2] (capacity : ℕ) (store : StoreId) (call : AttemptCall)
    (s : Mutex AttemptState) (hs : s.poisoned = false) :
    (serve capacity store call s).1.response.unwound = false ∧ (serve capacity store call s).2.poisoned = false := by
  cases hserve : serve capacity store call s with
  | mk event s' =>
    obtain ⟨hserved, hstep⟩ := serve_attemptStep hs hserve
    have hresponse : event.response.unwound = false := by
      -- the step of the key the call is about says what was returned
      cases hstep event.request.key with
      | other hkey => exact absurd rfl hkey
      | full _ _ _ hresponse => rw [hresponse]; rfl
      | denied _ _ _ _ _ hresponse => rw [hresponse]; rfl
      | exhausted _ _ _ hresponse => rw [hresponse]; rfl
      | admitted _ _ _ _ hresponse => rw [hresponse]; rfl
      | applied _ _ _ _ _ _ _ _ _ hresponse => rw [hresponse]; rfl
      | stale _ _ _ _ hresponse => rw [hresponse]; rfl
    exact ⟨hresponse, hserved.unpoisoned⟩

/-! ## Runs -/

section Runs

variable [Sha2] {config : MemoryStoreConfig}

/-- The fixed windows, for policies whose fingerprints are distinct. -/
theorem MemoryStore.perform_healthy {known : Set FixedWindowPolicy}
    (hfree : Set.InjOn Sha2.sha256 (FixedWindowPolicy.preimage '' known)) (request : StoreRequest FixedWindowPolicy)
    (shards : BoundedShards config WindowEntry)
    (hrequest : (∀ c ∈ request.checks, c.policy ∈ known) ∧ request.ReadsClock)
    (h : shards.Healthy (Charged known)) :
    (perform request shards).1.Returned ∧ (perform request shards).2.Healthy (Charged known) := by
  obtain ⟨hstep, hrepresents⟩ := perform_represents hfree h.represents request hrequest.1
  refine h.step hstep hrepresents hrequest.2 ?_
  intro count hcount
  cases request with
  | tryAdmit clock call => cases hcount
  | clear => cases hcount
  | recoverPoisoned =>
    cases hcount
    exact shards.recoverPoisoned_le

/-- The cell rates, for every batch. -/
theorem GcraStore.perform_healthy (request : StoreRequest GcraPolicy) (shards : BoundedShards config GcraEntry)
    (hclock : request.ReadsClock) (h : shards.Healthy fun _ _ => True) :
    (perform request shards).1.Returned ∧ (perform request shards).2.Healthy fun _ _ => True := by
  obtain ⟨hstep, hrepresents⟩ := perform_represents h.represents request
  refine h.step hstep hrepresents hclock ?_
  intro count hcount
  cases request with
  | tryAdmit clock call => cases hcount
  | clear => cases hcount
  | recoverPoisoned =>
    cases hcount
    exact shards.recoverPoisoned_le

/-- Every call of a run returned, no shard is poisoned, and the statistics can be taken. -/
structure NeverUnwinds {E : Type} (config : MemoryStoreConfig) (responses : List StoreResponse)
    (shards : BoundedShards config E) : Prop where
  returned : ∀ response ∈ responses, response.Returned
  unpoisoned : ∀ i, (shards i).poisoned = false
  stats : ∃ entries ≤ config.maxKeys, shards.stats = .ok (.ok ⟨entries, config.maxKeys, config.shardCount⟩)

/-- **No panic or assertion in the memory backends is reachable**: in no run of either store whose
clocks do not panic, and in no run of the attempt limiter, does a call unwind or leave a mutex
poisoned. -/
theorem no_panic_reachable (config : MemoryStoreConfig) :
    (∀ requests : List (StoreRequest FixedWindowPolicy),
      Set.InjOn Sha2.sha256 (FixedWindowPolicy.preimage '' storePolicies requests) →
      (∀ request ∈ requests, request.ReadsClock) →
      NeverUnwinds config (Machine.outputs MemoryStore.perform (BoundedShards.new config) requests)
        (MemoryStore.reached config requests)) ∧
    (∀ requests : List (StoreRequest GcraPolicy), (∀ request ∈ requests, request.ReadsClock) →
      NeverUnwinds config (Machine.outputs GcraStore.perform (BoundedShards.new config) requests)
        (GcraStore.reached config requests)) ∧
    (∀ i, config.shardCapacity i ≤ usizeMax) ∧
    ∀ (capacity : ℕ) (store : StoreId) (calls : List AttemptCall),
      (∀ event ∈ MemoryAttemptLimiter.run capacity store calls, event.response.unwound = false) ∧
      (MemoryAttemptLimiter.after capacity store calls).poisoned = false := by
  refine ⟨?_, ?_, shardCapacity_le_usize config, ?_⟩
  · intro requests hfree hclock
    have hrequests : ∀ request ∈ requests,
        (∀ c ∈ request.checks, c.policy ∈ storePolicies requests) ∧ request.ReadsClock :=
      fun request hrequest => ⟨fun c hc => ⟨request, hrequest, c, hc, rfl⟩, hclock request hrequest⟩
    obtain ⟨hreturned, hhealthy⟩ := Machine.run_inv (BoundedShards.Healthy (MemoryStore.Charged _))
      StoreResponse.Returned (@MemoryStore.perform_healthy _ config _ hfree) BoundedShards.Healthy.new hrequests
    exact ⟨hreturned, hhealthy.unpoisoned, BoundedShards.stats_eq hhealthy.represents hhealthy.unpoisoned⟩
  · intro requests hclock
    obtain ⟨hreturned, hhealthy⟩ := Machine.run_inv (BoundedShards.Healthy fun _ _ => True)
      StoreResponse.Returned (@GcraStore.perform_healthy _ config) BoundedShards.Healthy.new hclock
    exact ⟨hreturned, hhealthy.unpoisoned, BoundedShards.stats_eq hhealthy.represents hhealthy.unpoisoned⟩
  · intro capacity store calls
    exact Machine.run_inv (fun s : Mutex AttemptState => s.poisoned = false)
      (fun event : AttemptEvent => event.response.unwound = false)
      (fun call s _ hs => MemoryAttemptLimiter.serve_returned capacity store call s hs) rfl
      (fun call _ => trivial)

end Runs

/-- A store whose clock jumps to the last reading there is and back, and is then cleared. -/
theorem no_panic_reachable_extreme :
    letI := vectorSha2
    NeverUnwinds pairConfig
      (Machine.outputs MemoryStore.perform (BoundedShards.new pairConfig)
        [loginRequest (.ok ⟨maxNanos, le_rfl⟩), loginRequest (.ok Duration.zero), .clear])
      (MemoryStore.reached pairConfig
        [loginRequest (.ok ⟨maxNanos, le_rfl⟩), loginRequest (.ok Duration.zero), .clear]) := by
  let := vectorSha2
  have hsub : storePolicies [loginRequest (.ok ⟨maxNanos, le_rfl⟩), loginRequest (.ok Duration.zero), .clear] ⊆
      {loginPolicy, searchPolicy} := by
    rintro p ⟨request, hrequest, c, hc, rfl⟩
    simp only [List.mem_cons, List.not_mem_nil, or_false] at hrequest
    rcases hrequest with rfl | rfl | rfl
    · rw [List.mem_singleton.1 hc]
      exact Or.inl rfl
    · rw [List.mem_singleton.1 hc]
      exact Or.inl rfl
    · cases hc
  refine (no_panic_reachable pairConfig).1 _ (vector_fixedWindow_injOn.mono (Set.image_mono hsub)) ?_
  intro request hrequest clock call hcall
  simp only [List.mem_cons, List.not_mem_nil, or_false] at hrequest
  rcases hrequest with rfl | rfl | rfl
  · cases hcall
    exact ⟨_, rfl⟩
  · cases hcall
    exact ⟨_, rfl⟩
  · cases hcall

end Runlimit
