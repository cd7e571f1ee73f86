import Runlimit.Spec.StoreRun
import Runlimit.Proof.MemoryRefines
import Runlimit.Proof.GcraRefines

/-!
# What one request to a memory store can do

`StoreStep` says it once for both stores: an admission fails and changes nothing, unwinds with
the clock and poisons the shards it has locked, or is evaluated by the bounded store; a clear
empties every shard or fails; a recovery rebuilds the poisoned shards. Nothing else unwinds.
-/

namespace Runlimit

open Gcra (ArithmeticOverflow)

/-! ## Responses -/

namespace Response

/-- How an operation ended. -/
inductive Ending where
  | failed
  | denied
  | allowed
  | unwound
  deriving DecidableEq

def ending : Response → Ending
  | .check (.returned (.error _)) => .failed
  | .check (.returned (.ok (.allowed _))) => .allowed
  | .check (.returned (.ok (.denied _))) => .denied
  | .check (.returned (.ok (.shadowDenied _))) => .denied
  | .check .panicked => .unwound
  | .checkAll (.returned (.error _)) => .failed
  | .checkAll (.returned (.ok ⟨.allowed _⟩)) => .allowed
  | .checkAll (.returned (.ok ⟨.denied _ _ _⟩)) => .denied
  | .checkAll (.returned (.ok ⟨.shadowDenied _ _ _⟩)) => .denied
  | .checkAll .panicked => .unwound

/-- The arithmetic left its exact range. -/
def overflowed : Response → Bool
  | .check (.returned (.error .arithmeticOverflow)) => true
  | .checkAll (.returned (.error .arithmeticOverflow)) => true
  | _ => false

end Response

variable {P E : Type} [RateLimitPolicy P] {config : MemoryStoreConfig}

/-- The evaluation of a request by the bounded store. -/
def Bounded.answer (alg : Algorithm P E) (now : ℕ) (request : Request P) (data : Bounded.Data config E) :
    Response × Bounded.Data config E :=
  match request with
  | .check c =>
    (.check (.returned ((Bounded.check alg now c data).1.mapError fun _ => .arithmeticOverflow)),
      (Bounded.check alg now c data).2)
  | .checkAll checks =>
    (.checkAll (.returned (Bounded.checkAll alg now checks data).1), (Bounded.checkAll alg now checks data).2)

namespace Bounded

/-- What the bounded store does with a request: it fails and changes nothing, it denies and removes
expired entries, or it also stores the entry of every check. -/
inductive Answered (alg : Algorithm P E) (now : ℕ) (request : Request P) (data : Data config E) :
    Response × Data config E → Prop where
  | failed {response : Response} (hresponse : response.ending = .failed) : Answered alg now request data (response, data)
  | denied {response : Response} (hresponse : response.ending = .denied) (budget : Fin config.shardCount → ℕ) :
      Answered alg now request data (response, cleanup budget (touched config request.checks) now data)
  | allowed {response : Response} (hresponse : response.ending = .allowed) (budget : Fin config.shardCount → ℕ)
      (verdicts : List (Check P × Verdict E)) (hchecks : verdicts.map Prod.fst = request.checks)
      (hnodup : (request.checks.map Check.counterKey).Nodup)
      (hverdicts : ∀ p ∈ verdicts, alg.evaluate p.1 now (entry now data p.1) = .ok p.2)
      (hallowed : ∀ p ∈ verdicts, ∃ entry allowance, p.2 = .allowed entry allowance) :
      Answered alg now request data
        (response, putAll verdicts (cleanup budget (touched config request.checks) now data))

theorem denied_quotaExceeded (mode : QuotaMode) (denial : QuotaDenial) :
    (Response.check (.returned (.ok (Decision.quotaExceeded mode denial)))).ending = .denied := by
  unfold Decision.quotaExceeded
  split
  · rfl
  · rfl

/-- **The bounded store does one of three things.** -/
theorem answer_answered (alg : Algorithm P E) (now : ℕ) (request : Request P) (data : Data config E) :
    Answered alg now request data (answer alg now request data) := by
  cases request with
  | check c =>
    unfold answer Bounded.check
    simp only
    cases hverdict : alg.evaluate c now (entry now data c) with
    | error e => exact .failed (by rfl)
    | ok verdict =>
      cases verdict with
      | denied denial => exact .denied (denied_quotaExceeded _ _) _
      | allowed e a =>
        simp only
        split
        · exact .denied (by rfl) _
        · -- the key is stored or there is room: a batch of one verdict
          refine .allowed (by rfl) _ [(c, .allowed e a)] rfl (List.nodup_singleton _) ?_ ?_
          · rw [List.forall_mem_singleton]
            exact hverdict
          · rw [List.forall_mem_singleton]
            exact ⟨e, a, rfl⟩
  | checkAll checks =>
    unfold answer checkAll
    simp only
    cases hvalid : validateBatch checks config.maxBatchSize with
    | error e => exact Answered.failed (by rfl)
    | ok u =>
      cases hrouted : overfull config checks with
      | some e => exact Answered.failed (by rfl)
      | none =>
        cases hverdicts : evaluateAll alg now (entry now data) checks with
        | error e => exact Answered.failed (by rfl)
        | ok verdicts =>
          -- valid, routed and evaluated: the scan decides
          obtain ⟨hchecks, hall⟩ := evaluateAll_ok hverdicts
          simp only
          cases hscan : firstDenial checks.length now
              (cleanup (budget config checks) (touched config checks) now data) verdicts with
          | none =>
            exact .allowed (by rfl) _ verdicts hchecks (validateBatch_ok hvalid).2 hall (scan_none_allowed hscan)
          | some outcome =>
            cases outcome with
            | allowed a => exact absurd hscan scan_ne_allowed
            | denied index size denial => exact .denied (by rfl) _
            | shadowDenied index size denial => exact .denied (by rfl) _

end Bounded

/-! ## Locks -/

namespace BoundedShards

variable {shards : BoundedShards config E}

/-- A lock is granted if the shard is not poisoned. -/
theorem lockShard_ok {i j : Fin config.shardCount} (h : shards.lockShard i = .ok j) :
    (shards i).poisoned = false ∧ j = i := by
  unfold lockShard at h
  split at h
  · cases h
  · rename_i hpoisoned
    cases h
    exact ⟨Bool.eq_false_iff.2 hpoisoned, rfl⟩

/-- Shards are locked only if none of them is poisoned. -/
theorem lockShards_ok : ∀ {indexes locked : List (Fin config.shardCount)},
    shards.lockShards indexes = .ok locked → (∀ i ∈ indexes, (shards i).poisoned = false) ∧ locked = indexes := by
  intro indexes
  unfold lockShards
  induction indexes with
  | nil =>
    intro locked h
    cases h
    simp
  | cons i rest ih =>
    intro locked h
    rw [List.mapM_cons] at h
    cases hi : shards.lockShard i with
    | error e =>
      rw [hi] at h
      cases h
    | ok j =>
      rw [hi, except_ok_bind] at h
      cases hrest : rest.mapM shards.lockShard with
      | error e =>
        rw [hrest] at h
        cases h
      | ok tail =>
        rw [hrest] at h
        cases h
        obtain ⟨hunpoisoned, rfl⟩ := lockShard_ok hi
        obtain ⟨hall, rfl⟩ := ih hrest
        rw [List.forall_mem_cons]
        exact ⟨⟨hunpoisoned, hall⟩, rfl⟩

/-- A batch that has acquired its locks holds the guards of its shards. -/
theorem lockTopology_ok {checks : List (Check P)} {locked : List (Fin config.shardCount)}
    (h : shards.lockTopology (BatchTopology.ofIndexes (checks.map (Check.shard config))) = .ok locked) :
    (∀ i ∈ touched config checks, (shards i).poisoned = false) ∧ locked = guards config checks := by
  have hlock : shards.lockShards (guards config checks) = .ok locked := by
    unfold lockTopology BatchTopology.ofIndexes at h
    rw [List.mapM_map] at h
    exact h
  obtain ⟨hall, rfl⟩ := lockShards_ok hlock
  exact ⟨fun i hi => hall i (mem_guards.2 hi), rfl⟩

end BoundedShards

/-! ## Steps -/

/-- What a request can do. -/
inductive StoreStep (alg : Algorithm P E) (shards : BoundedShards config E) :
    StoreRequest P → StoreResponse → BoundedShards config E → Prop where
  /-- The admission fails before anything is evaluated. -/
  | failed {clock : Panics Duration} {request : Request P} {response : Response}
      (hresponse : response.ending = .failed) (hexact : response.overflowed = false) :
      StoreStep alg shards (.tryAdmit clock request) (.admission response) shards
  /-- The clock panics under the locks of the admission. -/
  | unwound {panic : Panic} {request : Request P} {response : Response}
      {locked : List (Fin config.shardCount)} (hresponse : response.ending = .unwound)
      (hlocked : ∀ i ∈ locked, i ∈ touched config request.checks) :
      StoreStep alg shards (.tryAdmit (.error panic) request) (.admission response) (shards.poison locked)
  /-- The admission is evaluated. -/
  | evaluated {reading : Duration} {request : Request P}
      (hunpoisoned : ∀ i ∈ touched config request.checks, (shards i).poisoned = false) :
      StoreStep alg shards (.tryAdmit (.ok reading) request)
        (.admission (Bounded.answer alg (clampedMillis shards.observed request.checks reading) request shards.data).1)
        (shards.unlock
          (Bounded.answer alg (clampedMillis shards.observed request.checks reading) request shards.data).2)
  | cleared (hunpoisoned : ∀ i, (shards i).poisoned = false) :
      StoreStep alg shards .clear (.clear (.ok ())) (shards.unlock fun i => (shards i).data.clear)
  | uncleared {error : PoisonedShardError} : StoreStep alg shards .clear (.clear (.error error)) shards
  | recovered {count : ℕ} : StoreStep alg shards .recoverPoisoned (.recovered count) shards.recoverPoisoned.2

/-- Clearing the shards one by one clears them all. -/
theorem foldl_clear (locked : List (Fin config.shardCount)) (data : Bounded.Data config E) :
    locked.foldl (fun data i => Function.update data i (data i).clear) data =
      fun i => if i ∈ locked then (data i).clear else data i := by
  induction locked generalizing data with
  | nil => simp
  | cons j rest ih =>
    rw [List.foldl_cons, ih]
    funext i
    by_cases hij : i = j
    · subst hij
      simp only [Function.update_self, List.mem_cons, true_or, if_true]
      split
      · rfl
      · rfl
    · simp only [Function.update_of_ne hij, List.mem_cons, hij, false_or]

/-- A clear is a step. -/
theorem clear_step (alg : Algorithm P E) (shards : BoundedShards config E) :
    StoreStep alg shards .clear (.clear shards.clear.1) shards.clear.2 := by
  unfold BoundedShards.clear
  cases hlock : shards.lockShards (List.finRange config.shardCount) with
  | error e => exact .uncleared
  | ok locked =>
    obtain ⟨hall, rfl⟩ := BoundedShards.lockShards_ok hlock
    have hclear : (List.finRange config.shardCount).foldl
        (fun data i => Function.update data i (data i).clear) shards.data =
        fun i => (shards i).data.clear := by
      rw [foldl_clear]
      funext i
      rw [if_pos (List.mem_finRange i)]
      rfl
    simp only [hclear]
    exact .cleared fun i => hall i (List.mem_finRange i)

namespace MemoryStore

variable [Sha2] {shards : BoundedShards config WindowEntry} {known : Set FixedWindowPolicy}

/-- A single check that is not evaluated. -/
theorem check_stopped {clock : Panics Duration} {c : Check FixedWindowPolicy}
    (h : (∃ panic, clock = .error panic) ∨ (shards (c.shard config)).poisoned = true) :
    StoreStep fixedWindow shards (.tryAdmit clock (.check c)) (.admission (tryAdmit clock (.check c) shards).1)
      (tryAdmit clock (.check c) shards).2 := by
  unfold tryAdmit check checkInner
  simp only
  cases hlock : shards.lockShard (config.shardIndex c.counterKey) with
  | error e => exact .failed (by rfl) (by rfl)
  | ok guard =>
    obtain ⟨hunpoisoned, rfl⟩ := BoundedShards.lockShard_ok hlock
    rcases h with ⟨panic, rfl⟩ | hpoisoned
    · refine .unwound (by rfl) ?_
      intro i hi
      rw [List.mem_singleton.1 hi]
      exact mem_touched.2 ⟨c, List.mem_cons_self, rfl⟩
    · exact absurd hpoisoned (Bool.eq_false_iff.1 hunpoisoned)

/-- A batch that is not evaluated. -/
theorem checkAll_stopped {clock : Panics Duration} {checks : List (Check FixedWindowPolicy)}
    (h : (∃ panic, clock = .error panic) ∨ ∃ i ∈ touched config checks, (shards i).poisoned = true) :
    StoreStep fixedWindow shards (.tryAdmit clock (.checkAll checks)) (.admission (tryAdmit clock (.checkAll checks) shards).1)
      (tryAdmit clock (.checkAll checks) shards).2 := by
  unfold tryAdmit checkAll checkAllInner
  simp only
  cases hvalid : validateBatch checks config.maxBatchSize with
  | error e => exact .failed (by rfl) (by rfl)
  | ok u =>
    -- a valid batch is routed without a panic
    have htopology := BatchTopology.topology_new config ((validateBatch_length hvalid).trans config.maxBatchSize_le)
    rw [show (fun check : Check FixedWindowPolicy => config.shardIndex check.counterKey) = Check.shard config from rfl]
    simp only
    rw [htopology]
    cases hrouted : overfull config checks with
    | some e => exact .failed (by rfl) (by rfl)
    | none =>
      simp only [BoundedShards.prepared_eq prepare]
      cases hlock : shards.lockTopology (BatchTopology.ofIndexes (checks.map (Check.shard config))) with
      | error e => exact .failed (by rfl) (by rfl)
      | ok locked =>
        obtain ⟨hunpoisoned, rfl⟩ := BoundedShards.lockTopology_ok hlock
        rcases h with ⟨panic, rfl⟩ | ⟨i, hi, hpoisoned⟩
        · exact .unwound (by rfl) fun i hi => BoundedShards.mem_guards.1 hi
        · exact absurd hpoisoned (Bool.eq_false_iff.1 (hunpoisoned i hi))

/-- **Every request to the fixed-window store is a step**, when the policies it brings are known and
usage is within their limits. -/
theorem perform_step (hinv : Bounded.Inv shards.data) (hwithin : Bounded.Stored (WithinLimit known) shards.data)
    (request : StoreRequest FixedWindowPolicy) (hrequest : ∀ c ∈ request.checks, c.policy ∈ known) :
    StoreStep fixedWindow shards request (perform request shards).1 (perform request shards).2 := by
  cases request with
  | clear => exact clear_step fixedWindow shards
  | recoverPoisoned => exact .recovered
  | tryAdmit clock request =>
    cases request with
    | check c =>
      -- a poisoned shard refuses the check, then the clock may panic; what is left is evaluated
      by_cases hpoisoned : (shards (c.shard config)).poisoned = true
      · exact check_stopped (Or.inr hpoisoned)
      cases clock with
      | error panic => exact check_stopped (Or.inl ⟨panic, rfl⟩)
      | ok reading =>
        have hunpoisoned := Bool.eq_false_iff.2 hpoisoned
        obtain ⟨decision, data, hbounded, hcheck⟩ := check_eq reading hinv
          (fun e he => hwithin _ _ e he c.policy (hrequest c List.mem_cons_self) rfl) hunpoisoned
        have hstep : StoreStep fixedWindow shards (.tryAdmit (.ok reading) (.check c)) _ _ :=
          .evaluated (by
            intro i hi
            rw [Finset.mem_singleton.1 hi]
            exact hunpoisoned)
        unfold Bounded.answer Request.checks at hstep
        simp only [hbounded] at hstep
        unfold perform performWith tryAdmit
        simp only [hcheck]
        exact hstep
    | checkAll checks =>
      -- the same for a batch, which needs every one of its shards
      by_cases hpoisoned : ∃ i ∈ touched config checks, (shards i).poisoned = true
      · exact checkAll_stopped (Or.inr hpoisoned)
      cases clock with
      | error panic => exact checkAll_stopped (Or.inl ⟨panic, rfl⟩)
      | ok reading =>
        have hunpoisoned : ∀ i ∈ touched config checks, (shards i).poisoned = false :=
          fun i hi => Bool.eq_false_iff.2 fun h => hpoisoned ⟨i, hi, h⟩
        have hrequest : ∀ c ∈ checks, c.policy ∈ known := hrequest
        obtain ⟨result, data, hbounded, hcheck⟩ := checkAll_eq reading hinv
          (fun c hc e he => hwithin _ _ e (Shard.live_eq_some.1 he).1 c.policy (hrequest c hc) rfl) hunpoisoned
        have hstep : StoreStep fixedWindow shards (.tryAdmit (.ok reading) (.checkAll checks)) _ _ :=
          .evaluated hunpoisoned
        unfold Bounded.answer Request.checks at hstep
        simp only [hbounded] at hstep
        unfold perform performWith tryAdmit
        simp only [hcheck]
        exact hstep

end MemoryStore

namespace GcraStore

variable [Sha2] {shards : BoundedShards config GcraEntry}

/-- A single check that is not evaluated. -/
theorem check_stopped {clock : Panics Duration} {c : Check GcraPolicy}
    (h : (∃ panic, clock = .error panic) ∨ (shards (c.shard config)).poisoned = true) :
    StoreStep gcra shards (.tryAdmit clock (.check c)) (.admission (tryAdmit clock (.check c) shards).1)
      (tryAdmit clock (.check c) shards).2 := by
  unfold tryAdmit check checkInner
  simp only
  cases hlock : shards.lockShard (config.shardIndex c.counterKey) with
  | error e => exact .failed (by rfl) (by rfl)
  | ok guard =>
    obtain ⟨hunpoisoned, rfl⟩ := BoundedShards.lockShard_ok hlock
    rcases h with ⟨panic, rfl⟩ | hpoisoned
    · refine .unwound (by rfl) ?_
      intro i hi
      rw [List.mem_singleton.1 hi]
      exact mem_touched.2 ⟨c, List.mem_cons_self, rfl⟩
    · exact absurd hpoisoned (Bool.eq_false_iff.1 hunpoisoned)

/-- A batch that is not evaluated. -/
theorem checkAll_stopped {clock : Panics Duration} {checks : List (Check GcraPolicy)}
    (h : (∃ panic, clock = .error panic) ∨ ∃ i ∈ touched config checks, (shards i).poisoned = true) :
    StoreStep gcra shards (.tryAdmit clock (.checkAll checks)) (.admission (tryAdmit clock (.checkAll checks) shards).1)
      (tryAdmit clock (.checkAll checks) shards).2 := by
  unfold tryAdmit checkAll checkAllInner
  simp only
  cases hvalid : validateBatch checks config.maxBatchSize with
  | error e => exact .failed (by rfl) (by rfl)
  | ok u =>
    have htopology := BatchTopology.topology_new config ((validateBatch_length hvalid).trans config.maxBatchSize_le)
    rw [show (fun check : Check GcraPolicy => config.shardIndex check.counterKey) = Check.shard config from rfl]
    simp only
    rw [htopology]
    cases hrouted : overfull config checks with
    | some e => exact .failed (by rfl) (by rfl)
    | none =>
      simp only [BoundedShards.prepared_eq prepare]
      cases hlock : shards.lockTopology (BatchTopology.ofIndexes (checks.map (Check.shard config))) with
      | error e => exact .failed (by rfl) (by rfl)
      | ok locked =>
        obtain ⟨hunpoisoned, rfl⟩ := BoundedShards.lockTopology_ok hlock
        rcases h with ⟨panic, rfl⟩ | ⟨i, hi, hpoisoned⟩
        · exact .unwound (by rfl) fun i hi => BoundedShards.mem_guards.1 hi
        · exact absurd hpoisoned (Bool.eq_false_iff.1 (hunpoisoned i hi))

/-- **Every request to the GCRA store is a step.** -/
theorem perform_step (hinv : Bounded.Inv shards.data) (request : StoreRequest GcraPolicy) :
    StoreStep gcra shards request (perform request shards).1 (perform request shards).2 := by
  cases request with
  | clear => exact clear_step gcra shards
  | recoverPoisoned => exact .recovered
  | tryAdmit clock request =>
    cases request with
    | check c =>
      by_cases hpoisoned : (shards (c.shard config)).poisoned = true
      · exact check_stopped (Or.inr hpoisoned)
      cases clock with
      | error panic => exact check_stopped (Or.inl ⟨panic, rfl⟩)
      | ok reading =>
        have hunpoisoned := Bool.eq_false_iff.2 hpoisoned
        obtain ⟨result, data, hbounded, hcheck⟩ := check_eq reading hinv hunpoisoned
        have hstep : StoreStep gcra shards (.tryAdmit (.ok reading) (.check c)) _ _ :=
          .evaluated (by
            intro i hi
            rw [Finset.mem_singleton.1 hi]
            exact hunpoisoned)
        unfold Bounded.answer Request.checks at hstep
        simp only [hbounded] at hstep
        unfold perform performWith tryAdmit
        simp only [hcheck]
        exact hstep
    | checkAll checks =>
      by_cases hpoisoned : ∃ i ∈ touched config checks, (shards i).poisoned = true
      · exact checkAll_stopped (Or.inr hpoisoned)
      cases clock with
      | error panic => exact checkAll_stopped (Or.inl ⟨panic, rfl⟩)
      | ok reading =>
        have hunpoisoned : ∀ i ∈ touched config checks, (shards i).poisoned = false :=
          fun i hi => Bool.eq_false_iff.2 fun h => hpoisoned ⟨i, hi, h⟩
        obtain ⟨result, data, hbounded, hcheck⟩ := checkAll_eq checks reading hinv hunpoisoned
        have hstep : StoreStep gcra shards (.tryAdmit (.ok reading) (.checkAll checks)) _ _ :=
          .evaluated hunpoisoned
        unfold Bounded.answer Request.checks at hstep
        simp only [hbounded] at hstep
        unfold perform performWith tryAdmit
        simp only [hcheck]
        exact hstep

end GcraStore

end Runlimit
