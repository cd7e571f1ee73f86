import Runlimit.Proof.MemoryRefines
import Runlimit.Proof.GcraRefines

/-!
# Bounded cleanup is unobservable

The two memory stores and the reference store, which deletes every expired entry of the
shards it touches, are machines over the same calls. Main results:

* `MemoryStore.run_eq`, `GcraStore.run_eq`: over every sequence of calls and clock readings the
  stores return the events of the reference store;
* `storageDenied_exceeds`: in the reference store, and so in both stores, a storage-capacity
  denial means that live entries and new keys together exceed the capacity of the shard;
* `cleanup_unobservable`: the statement about both stores, for every configuration.
-/

namespace Runlimit

namespace BoundedShards

variable {E : Type} {config : MemoryStoreConfig}

/-- What the shards of a store mean. -/
def abs (shards : BoundedShards config E) : RefStore config E := Bounded.abs shards.data

/-- A new store is the empty map. -/
theorem abs_new : (BoundedShards.new config : BoundedShards config E).abs = RefStore.new config :=
  funext fun _ => Shard.abs_new _

theorem inv_new : Bounded.Inv (BoundedShards.new config : BoundedShards config E).data :=
  ⟨fun i => Shard.Inv.new (shardCapacity_le_usize config i), fun _ => rfl⟩

end BoundedShards

/-! ## Every call is a call of the reference store -/

/-- The policies of the calls of a run. -/
def policies {P : Type} [RateLimitPolicy P] (calls : List (Call P)) : Set P :=
  { p | ∃ call ∈ calls, ∃ c ∈ call.request.checks, c.policy = p }

namespace MemoryStore

variable [Sha2] {config : MemoryStoreConfig} {shards : BoundedShards config WindowEntry}
  {known : Set FixedWindowPolicy}

/-- What holds of the store between calls with policies from `known`. -/
structure Sound (known : Set FixedWindowPolicy) (shards : BoundedShards config WindowEntry) : Prop where
  unpoisoned : ∀ i, (shards i).poisoned = false
  inv : Bounded.Inv shards.data
  within : Bounded.Stored (WithinLimit known) shards.data

/-- A new window store is sound. -/
theorem Sound.new (known : Set FixedWindowPolicy) : Sound known (BoundedShards.new config) where
  unpoisoned _ := rfl
  inv := BoundedShards.inv_new
  within i key entry h := by simp [BoundedShards.data, BoundedShards.new, Shard.new] at h

/-- One call. -/
theorem answer_refines (hfree : Set.InjOn Sha2.sha256 (FixedWindowPolicy.preimage '' known))
    (hs : Sound known shards) (call : Call FixedWindowPolicy)
    (hcall : ∀ c ∈ call.request.checks, c.policy ∈ known) :
    RefStore.answer fixedWindow call shards.abs = ((answer call shards).1, (answer call shards).2.abs) ∧
      Sound known (answer call shards).2 := by
  obtain ⟨reading, request⟩ := call
  have hmax : ∀ checks : List (Check FixedWindowPolicy),
      clampedMillis shards.observed checks reading ≤ maxMillis := fun checks =>
    clampedMillis_le fun i => (hs.inv.shard i).observed_le
  cases request with
  | check c =>
    have hc : c.policy ∈ known := hcall c List.mem_cons_self
    have hnow : Bounded.observed shards.data (c.shard config) ≤ clampedMillis shards.observed [c] reading :=
      le_clampedMillis (mem_touched.2 ⟨c, List.mem_cons_self, rfl⟩)
    -- no stored count is above the limit of the check
    obtain ⟨decision, data, hbounded, hcheck⟩ := check_eq reading hs.inv
      (fun e he => hs.within _ _ e he c.policy hc rfl) (hs.unpoisoned _)
    have hrefines := Bounded.check_refines fixedWindow hs.inv (hmax [c]) hnow
    have hinv := Bounded.check_inv fixedWindow hs.inv (hmax [c]) hnow
    have hstored := Bounded.check_stored fixedWindow hs.inv (hmax [c]) hnow hs.within
      fun e a h => withinLimit_verdict hfree hc h
    rw [hbounded] at hrefines hinv hstored
    unfold answer RefStore.answer
    simp only [hcheck]
    refine ⟨?_, hs.unpoisoned, hinv, hstored⟩
    exact congrArg (fun r : Except Gcra.ArithmeticOverflow Decision × RefStore config WindowEntry =>
      (Response.check (.returned (r.1.mapError fun _ => .arithmeticOverflow)), r.2)) hrefines
  | checkAll checks =>
    have hcall : ∀ c ∈ checks, c.policy ∈ known := hcall
    have hnow : ∀ i ∈ touched config checks,
        Bounded.observed shards.data i ≤ clampedMillis shards.observed checks reading :=
      fun i hi => le_clampedMillis hi
    obtain ⟨result, data, hbounded, hcheck⟩ := checkAll_eq reading hs.inv
      (fun c hc e he => hs.within _ _ e (Shard.live_eq_some.1 he).1 c.policy (hcall c hc) rfl)
      (fun i _ => hs.unpoisoned i)
    have hrefines := Bounded.checkAll_refines fixedWindow hs.inv (hmax checks) hnow
    have hinv := Bounded.checkAll_inv fixedWindow hs.inv (hmax checks) hnow
    have hstored := Bounded.checkAll_stored fixedWindow hs.inv (hmax checks) hnow hs.within
      fun c hc e a h => withinLimit_verdict hfree (hcall c hc) h
    rw [hbounded] at hrefines hinv hstored
    unfold answer RefStore.answer
    simp only [hcheck]
    refine ⟨?_, hs.unpoisoned, hinv, hstored⟩
    exact congrArg (fun r : Except GcraBatchError BatchDecision × RefStore config WindowEntry =>
      (Response.checkAll (.returned r.1), r.2)) hrefines

/-- **One call** of the window store is one of the reference. -/
theorem serve_refines (hfree : Set.InjOn Sha2.sha256 (FixedWindowPolicy.preimage '' known))
    (call : Call FixedWindowPolicy) (shards : BoundedShards config WindowEntry)
    (hcall : ∀ c ∈ call.request.checks, c.policy ∈ known) (hs : Sound known shards) :
    RefStore.serve fixedWindow call shards.abs = ((serve call shards).1, (serve call shards).2.abs) ∧
      Sound known (serve call shards).2 := by
  obtain ⟨hanswer, hsound⟩ := answer_refines hfree hs call hcall
  unfold RefStore.serve serve serveWith
  rw [hanswer]
  exact ⟨rfl, hsound⟩

/-- The fingerprints of the policies of a run do not collide. -/
def CollisionFree (calls : List (Call FixedWindowPolicy)) : Prop :=
  Set.InjOn Sha2.sha256 (FixedWindowPolicy.preimage '' policies calls)

/-- A run with policies whose fingerprints do not collide. -/
theorem run_refines (hfree : Set.InjOn Sha2.sha256 (FixedWindowPolicy.preimage '' known))
    {calls : List (Call FixedWindowPolicy)} (hcalls : policies calls ⊆ known) (config : MemoryStoreConfig) :
    run config calls = RefStore.run fixedWindow config calls ∧
      (after config calls).abs = RefStore.after fixedWindow config calls ∧
      Sound known (after config calls) := by
  have hok : ∀ call ∈ calls, ∀ c ∈ call.request.checks, c.policy ∈ known :=
    fun call hcall c hc => hcalls ⟨call, hcall, c, hc, rfl⟩
  have hnew : Sound known (BoundedShards.new config) := Sound.new _
  have h := Machine.simulation (fun call s => serve_refines hfree call s) hnew hok
  rw [BoundedShards.abs_new] at h
  exact h

/-- **Every run of the fixed-window store is a run of the reference store.** -/
theorem run_eq {calls : List (Call FixedWindowPolicy)} (hfree : CollisionFree calls)
    (config : MemoryStoreConfig) : run config calls = RefStore.run fixedWindow config calls :=
  (run_refines hfree subset_rfl config).1

end MemoryStore

namespace GcraStore

variable {config : MemoryStoreConfig} {shards : BoundedShards config GcraEntry}

/-- What holds of the store between calls. -/
structure Sound (shards : BoundedShards config GcraEntry) : Prop where
  unpoisoned : ∀ i, (shards i).poisoned = false
  inv : Bounded.Inv shards.data

theorem Sound.new : Sound (BoundedShards.new config) where
  unpoisoned _ := rfl
  inv := BoundedShards.inv_new

variable [Sha2]

/-- One call. -/
theorem answer_refines (hs : Sound shards) (call : Call GcraPolicy) :
    RefStore.answer gcra call shards.abs = ((answer call shards).1, (answer call shards).2.abs) ∧
      Sound (answer call shards).2 := by
  obtain ⟨reading, request⟩ := call
  have hmax : ∀ checks : List (Check GcraPolicy),
      clampedMillis shards.observed checks reading ≤ maxMillis := fun checks =>
    clampedMillis_le fun i => (hs.inv.shard i).observed_le
  cases request with
  | check c =>
    have hnow : Bounded.observed shards.data (c.shard config) ≤ clampedMillis shards.observed [c] reading :=
      le_clampedMillis (mem_touched.2 ⟨c, List.mem_cons_self, rfl⟩)
    -- the check goes through the bounded shards
    obtain ⟨result, data, hbounded, hcheck⟩ := check_eq reading hs.inv (hs.unpoisoned (c.shard config))
    have hrefines := Bounded.check_refines gcra hs.inv (hmax [c]) hnow
    have hinv := Bounded.check_inv gcra hs.inv (hmax [c]) hnow
    rw [hbounded] at hrefines hinv
    unfold answer RefStore.answer
    simp only [hcheck]
    refine ⟨?_, hs.unpoisoned, hinv⟩
    exact congrArg (fun r : Except Gcra.ArithmeticOverflow Decision × RefStore config GcraEntry =>
      (Response.check (.returned (r.1.mapError fun _ => .arithmeticOverflow)), r.2)) hrefines
  | checkAll checks =>
    have hnow : ∀ i ∈ touched config checks,
        Bounded.observed shards.data i ≤ clampedMillis shards.observed checks reading :=
      fun i hi => le_clampedMillis hi
    obtain ⟨result, data, hbounded, hcheck⟩ := checkAll_eq checks reading hs.inv
      (fun i _ => hs.unpoisoned i)
    have hrefines := Bounded.checkAll_refines gcra hs.inv (hmax checks) hnow
    have hinv := Bounded.checkAll_inv gcra hs.inv (hmax checks) hnow
    rw [hbounded] at hrefines hinv
    unfold answer RefStore.answer
    simp only [hcheck]
    refine ⟨?_, hs.unpoisoned, hinv⟩
    exact congrArg (fun r : Except GcraBatchError BatchDecision × RefStore config GcraEntry =>
      (Response.checkAll (.returned r.1), r.2)) hrefines

/-- **One call** of the GCRA store is one of the reference. -/
theorem serve_refines (call : Call GcraPolicy) (shards : BoundedShards config GcraEntry)
    (hs : Sound shards) :
    RefStore.serve gcra call shards.abs = ((serve call shards).1, (serve call shards).2.abs) ∧
      Sound (serve call shards).2 := by
  obtain ⟨hanswer, hsound⟩ := answer_refines hs call
  unfold RefStore.serve serve serveWith
  rw [hanswer]
  exact ⟨rfl, hsound⟩

/-- **Every run of the GCRA store is a run of the reference store.** -/
theorem run_eq (config : MemoryStoreConfig) (calls : List (Call GcraPolicy)) :
    run config calls = RefStore.run gcra config calls ∧
      (after config calls).abs = RefStore.after gcra config calls ∧ Sound (after config calls) := by
  have hok : ∀ call ∈ calls, True := fun _ _ => trivial
  have hnew : Sound (BoundedShards.new config) := Sound.new
  have h := Machine.simulation (fun call s (_ : True) => serve_refines call s) hnew hok
  rw [BoundedShards.abs_new] at h
  exact h

end GcraStore

/-! ## Storage denials -/

section StorageDenials

variable {P E : Type} [RateLimitPolicy P] {config : MemoryStoreConfig}

/-- The input index of the check that was denied for lack of storage. -/
def Response.storageDeniedAt : Response → Option ℕ
  | .check (.returned (.ok (.denied (.storageCapacity _)))) => some 0
  | .checkAll (.returned (.ok ⟨.denied index _ (.storageCapacity _)⟩)) => some index
  | _ => none

/-- The entries of a shard that have not expired at `now`. -/
def BoundedShards.unexpired (shards : BoundedShards config E) (now : ℕ) (i : Fin config.shardCount) :
    Table CounterKey (StoredEntry E) :=
  (shards i).data.entries.filter fun _ entry => decide (now < entry.expiresAtMillis)

/-- The unexpired entries of a shard, and the keys of the checks without one, are more than
the shard can hold. -/
def BoundedShards.Exceeded (shards : BoundedShards config E) (now : ℕ) (checks : List (Check P))
    (i : Fin config.shardCount) : Prop :=
  config.shardCapacity i < (shards.unexpired now i).keys.card +
    newKeys config (fun key => decide (key ∈ (shards.unexpired now (config.shardIndex key)).keys)) i checks

/-- If an event reports a storage denial, the shard of the denied check was exceeded. -/
def BoundedShards.Justifies (shards : BoundedShards config E) (event : Event P) : Prop :=
  ∀ index, event.response.storageDeniedAt = some index →
    ∃ c, event.request.checks[index]? = some c ∧
      shards.Exceeded event.nowMillis event.request.checks (c.shard config)

theorem mapError_ok {ε ε' α : Type} {r : Except ε α} {f : ε → ε'} {a : α} (h : r.mapError f = .ok a) :
    r = .ok a := by
  cases r with
  | error e => cases h
  | ok b => cases h; rfl

/-- A single check is denied for storage only by an exceeded shard. -/
theorem check_storage {alg : Algorithm P E} {now : ℕ} {c : Check P} {store : RefStore config E}
    {after : Option Delay} (h : (RefStore.check alg now c store).1 = .ok (.denied (.storageCapacity after))) :
    config.shardCapacity (c.shard config) < ((store (c.shard config)).advance now).entries.keys.card + 1 ∧
      c.counterKey ∉ ((store (c.shard config)).advance now).entries.keys := by
  have hadvance : store.advance {c.shard config} now (c.shard config) = (store (c.shard config)).advance now :=
    if_pos (Finset.mem_singleton_self _)
  unfold RefStore.check at h
  simp only [hadvance] at h
  split at h
  · cases h
  · unfold Decision.quotaExceeded at h
    simp only at h
    split at h
    · cases h
    · cases h
  · split at h
    · rename_i hfull
      exact ⟨by omega, hfull.1⟩
    · cases h

/-- A batch is denied for storage only by an exceeded shard. -/
theorem checkAll_storage {alg : Algorithm P E} {now : ℕ} {checks : List (Check P)}
    {store : RefStore config E} {index size : ℕ} {after : Option Delay}
    (h : (RefStore.checkAll alg now checks store).1 =
      .ok ⟨.denied index size (.storageCapacity after)⟩) :
    ∃ c, checks[index]? = some c ∧
      config.shardCapacity (c.shard config) <
        (store.advance (touched config checks) now (c.shard config)).entries.keys.card +
          newKeys config (fun key => decide (key ∈ (store.advance (touched config checks) now
            (config.shardIndex key)).entries.keys)) (c.shard config) checks := by
  unfold RefStore.checkAll at h
  split at h
  · cases h
  · split at h
    · cases h
    · simp only at h
      split at h
      · cases h
      · rename_i verdicts hev
        obtain ⟨hfst, -⟩ := evaluateAll_ok hev
        split at h
        · rename_i outcome hscan
          cases h
          obtain ⟨j, c, hget, hindex, hlt⟩ := scan_storage hscan
          rw [hfst] at hget hlt
          refine ⟨c, by rw [hindex, Nat.zero_add]; exact hget, ?_⟩
          simpa using hlt
        · cases h

/-- A single check is denied for want of storage at its own index. -/
theorem storageDeniedAt_check {r : CallResult (Except GcraCheckError Decision)} {index : ℕ}
    (h : (Response.check r).storageDeniedAt = some index) :
    index = 0 ∧ ∃ after, r = .returned (.ok (.denied (.storageCapacity after))) := by
  unfold Response.storageDeniedAt at h
  split at h
  · rename_i after hr
    rw [Response.check.injEq] at hr
    cases h
    exact ⟨rfl, after, hr⟩
  · rename_i hr
    cases hr
  · cases h

/-- A batch is denied for want of storage at the index that its decision names. -/
theorem storageDeniedAt_checkAll {r : CallResult (Except GcraBatchError BatchDecision)} {index : ℕ}
    (h : (Response.checkAll r).storageDeniedAt = some index) :
    ∃ size after, r = .returned (.ok ⟨.denied index size (.storageCapacity after)⟩) := by
  unfold Response.storageDeniedAt at h
  split at h
  · rename_i hr
    cases hr
  · rename_i index' size after hr
    rw [Response.checkAll.injEq] at hr
    cases h
    exact ⟨size, after, hr⟩
  · cases h

/-- In states that mean states of the reference store, storage denials are justified. -/
theorem justifies_of_refines {alg : Algorithm P E} {shards : BoundedShards config E} {call : Call P}
    {event : Event P} {store : RefStore config E}
    (h : RefStore.serve alg call shards.abs = (event, store)) : shards.Justifies event := by
  obtain ⟨reading, request⟩ := call
  obtain ⟨rfl, -⟩ := Prod.mk.inj h
  -- up to the reading of the call, the reference has the unexpired entries
  have hlive : ∀ checks : List (Check P), ∀ i ∈ touched config checks,
      ((shards.abs i).advance (clampedMillis shards.observed checks reading)).entries =
        shards.unexpired (clampedMillis shards.observed checks reading) i := by
    intro checks i hi
    refine Shard.advance_abs_entries ?_
    change shards.observed i ≤ _
    exact le_clampedMillis hi
  intro index hindex
  cases request with
  | check c =>
    have hc := hlive [c] (c.shard config) (mem_touched.2 ⟨c, List.mem_cons_self, rfl⟩)
    obtain ⟨rfl, after, hresult⟩ := storageDeniedAt_check hindex
    rw [CallResult.returned.injEq] at hresult
    obtain ⟨hlt, hnot⟩ := check_storage (mapError_ok hresult)
    refine ⟨c, rfl, ?_⟩
    change config.shardCapacity (c.shard config) <
      (shards.unexpired (clampedMillis shards.observed [c] reading) (c.shard config)).keys.card +
        newKeys config _ (c.shard config) [c]
    change config.shardCapacity (c.shard config) <
      ((shards.abs (c.shard config)).advance (clampedMillis shards.observed [c] reading)).entries.keys.card + 1
      at hlt
    change c.counterKey ∉
      ((shards.abs (c.shard config)).advance (clampedMillis shards.observed [c] reading)).entries.keys at hnot
    rw [hc] at hlt hnot
    unfold newKeys
    rw [List.countP_singleton, if_pos]
    · exact hlt
    · simp only [decide_true, Bool.true_and, Bool.not_eq_true', decide_eq_false_iff_not]
      exact hnot
  | checkAll checks =>
    obtain ⟨size, after, hresult⟩ := storageDeniedAt_checkAll hindex
    rw [CallResult.returned.injEq] at hresult
    obtain ⟨c, hget, hlt⟩ := checkAll_storage hresult
    refine ⟨c, hget, ?_⟩
    have hmem : c ∈ checks := List.mem_of_getElem? hget
    -- the touched shards are at the time of the batch
    have hadvance : ∀ i ∈ touched config checks,
        (shards.abs.advance (touched config checks) (clampedMillis shards.observed checks reading) i).entries =
          shards.unexpired (clampedMillis shards.observed checks reading) i := by
      intro i hi
      unfold RefStore.advance
      rw [if_pos hi]
      exact hlive checks i hi
    change config.shardCapacity (c.shard config) <
      (shards.abs.advance (touched config checks) (clampedMillis shards.observed checks reading)
        (c.shard config)).entries.keys.card + _ at hlt
    rw [hadvance _ (mem_touched.2 ⟨c, hmem, rfl⟩)] at hlt
    refine lt_of_lt_of_eq hlt ?_
    refine congrArg (_ + ·) (List.countP_congr fun d hd => ?_)
    have hd' := hadvance (d.shard config) (mem_touched.2 ⟨d, hd, rfl⟩)
    change (decide (d.shard config = c.shard config) && !decide (d.counterKey ∈
      (shards.abs.advance (touched config checks) (clampedMillis shards.observed checks reading)
        (d.shard config)).entries.keys)) = true ↔ _
    rw [hd']
    rfl

end StorageDenials

/-! ## The reference store does not know the removal budget -/

section Removals

variable {P E : Type} [RateLimitPolicy P]

/-- The same shards with another removal budget. -/
abbrev MemoryStoreConfig.withRemovals (config : MemoryStoreConfig) (m : ℕ) (hm : 0 < m) :
    MemoryStoreConfig :=
  { config with maxExpiredRemovalsPerCheck := m, removals_pos := hm }

/-- The budget of the cleanup is in no scan. -/
theorem scan_withRemovals (config : MemoryStoreConfig) (m : ℕ) (hm : 0 < m) (size : ℕ)
    (present : CounterKey → Bool) (used : Fin config.shardCount → ℕ)
    (full : Fin config.shardCount → Denial) :
    ∀ (rest : List (Check P × Verdict E)) (k : ℕ) (pending : Fin config.shardCount → ℕ),
    scan (config.withRemovals m hm) size present used full k pending rest =
      scan config size present used full k pending rest := by
  intro rest
  induction rest with
  | nil => intro k pending; rfl
  | cons p rest ih =>
    intro k pending
    obtain ⟨c, v⟩ := p
    cases v with
    | denied d => rfl
    | allowed e a =>
      change (if present c.counterKey = true then
          scan (config.withRemovals m hm) size present used full (k + 1) pending rest
        else if config.shardCapacity (c.shard config) ≤ used (c.shard config) + pending (c.shard config) then
          some (.denied k size (full (c.shard config)))
        else scan (config.withRemovals m hm) size present used full (k + 1)
          (Function.update pending (c.shard config) (pending (c.shard config) + 1)) rest) = _
      rw [ih, ih]
      rfl

theorem putAll_withRemovals (config : MemoryStoreConfig) (m : ℕ) (hm : 0 < m) :
    ∀ (rest : List (Check P × Verdict E)) (store : RefStore config E),
    @RefStore.putAll P E _ (config.withRemovals m hm) rest store = RefStore.putAll rest store := by
  intro rest
  induction rest with
  | nil => intro store; rfl
  | cons p rest ih =>
    intro store
    obtain ⟨c, v⟩ := p
    cases v with
    | denied d => exact ih store
    | allowed e a => exact ih _

theorem checkAll_withRemovals (config : MemoryStoreConfig) (m : ℕ) (hm : 0 < m) (alg : Algorithm P E) (now : ℕ)
    (checks : List (Check P)) (store : RefStore config E) :
    @RefStore.checkAll P E _ (config.withRemovals m hm) alg now checks store = RefStore.checkAll alg now checks store := by
  unfold RefStore.checkAll
  cases validateBatch checks config.maxBatchSize with
  | error e => rfl
  | ok u =>
    have hrouted : overfull (config.withRemovals m hm) checks = overfull config checks := rfl
    simp only [hrouted]
    cases overfull config checks with
    | some e => rfl
    | none =>
      have hadvance : @RefStore.advance E (config.withRemovals m hm) store
          (touched (config.withRemovals m hm) checks) now = store.advance (touched config checks) now := rfl
      have hentry : @RefStore.entry P E _ (config.withRemovals m hm) (store.advance (touched config checks) now) =
          (store.advance (touched config checks) now).entry := rfl
      have hindex : (config.withRemovals m hm).shardIndex = config.shardIndex := rfl
      simp only [hadvance, hentry, hindex, scan_withRemovals]
      cases evaluateAll alg now (store.advance (touched config checks) now).entry checks with
      | error e => rfl
      | ok verdicts =>
        simp only [putAll_withRemovals]

/-- No call of the reference depends on the budget. -/
theorem serve_withRemovals (config : MemoryStoreConfig) (m : ℕ) (hm : 0 < m) (alg : Algorithm P E)
    (call : Call P) (store : RefStore config E) :
    @RefStore.serve P E _ (config.withRemovals m hm) alg call store = RefStore.serve alg call store := by
  obtain ⟨reading, request⟩ := call
  cases request with
  | check c => rfl
  | checkAll checks =>
    unfold RefStore.serve serveWith RefStore.answer
    simp only [Request.checks, checkAll_withRemovals]
    rfl

theorem run_withRemovals (config : MemoryStoreConfig) (m : ℕ) (hm : 0 < m) (alg : Algorithm P E)
    (calls : List (Call P)) :
    RefStore.run alg (config.withRemovals m hm) calls = RefStore.run alg config calls := by
  unfold RefStore.run
  have hserve : @RefStore.serve P E _ (config.withRemovals m hm) alg = @RefStore.serve P E _ config alg :=
    funext fun call => funext fun store => serve_withRemovals config m hm alg call store
  exact congrArg (fun serve => Machine.outputs serve (RefStore.new config) calls) hserve

/-- The setter changes the budget alone, to a positive one. -/
theorem withMaxExpiredRemovalsPerCheck_ok {config config' : MemoryStoreConfig} {m : ℕ}
    (h : config.withMaxExpiredRemovalsPerCheck m = .ok config') :
    ∃ hm, config' = config.withRemovals m hm := by
  unfold MemoryStoreConfig.withMaxExpiredRemovalsPerCheck at h
  split at h
  · cases h
  · rename_i h0
    cases h
    exact ⟨Nat.pos_of_ne_zero h0, rfl⟩

end Removals

/-! ## The two stores -/

/-- **Bounded cleanup is unobservable.** For every configuration and every sequence of calls,
each store returns the decisions and errors of the reference store at the same times, denies
for lack of storage only what exceeds the capacity of the shard, and returns the same under
any other removal budget. -/
theorem cleanup_unobservable [Sha2] (config : MemoryStoreConfig) :
    (∀ calls : List (Call FixedWindowPolicy), MemoryStore.CollisionFree calls →
      MemoryStore.run config calls = RefStore.run fixedWindow config calls ∧
      (∀ before call after, calls = before ++ call :: after →
        (MemoryStore.after config before).Justifies
          (MemoryStore.serve call (MemoryStore.after config before)).1) ∧
      ∀ m config', config.withMaxExpiredRemovalsPerCheck m = .ok config' →
        MemoryStore.run config' calls = MemoryStore.run config calls) ∧
    ∀ calls : List (Call GcraPolicy),
      GcraStore.run config calls = RefStore.run gcra config calls ∧
      (∀ before call after, calls = before ++ call :: after →
        (GcraStore.after config before).Justifies
          (GcraStore.serve call (GcraStore.after config before)).1) ∧
      ∀ m config', config.withMaxExpiredRemovalsPerCheck m = .ok config' →
        GcraStore.run config' calls = GcraStore.run config calls := by
  refine ⟨fun calls hfree => ⟨MemoryStore.run_eq hfree config, ?_, ?_⟩,
    fun calls => ⟨(GcraStore.run_eq config calls).1, ?_, ?_⟩⟩
  · rintro before call rest rfl
    -- the policies of the calls so far are among all
    have hsub : policies before ⊆ policies (before ++ call :: rest) := by
      rintro p ⟨call', hcall', hp⟩
      exact ⟨call', List.mem_append_left _ hcall', hp⟩
    have hcall : ∀ c ∈ call.request.checks, c.policy ∈ policies (before ++ call :: rest) :=
      fun c hc => ⟨call, List.mem_append_right _ List.mem_cons_self, c, hc, rfl⟩
    have hsound := (MemoryStore.run_refines hfree hsub config).2.2
    exact justifies_of_refines (MemoryStore.serve_refines hfree call _ hcall hsound).1
  · intro m config' hconfig
    obtain ⟨hm, rfl⟩ := withMaxExpiredRemovalsPerCheck_ok hconfig
    rw [MemoryStore.run_eq hfree config, MemoryStore.run_eq hfree (config.withRemovals m hm),
      run_withRemovals]
  · rintro before call rest rfl
    exact justifies_of_refines (GcraStore.serve_refines call _ (GcraStore.run_eq config before).2.2).1
  · intro m config' hconfig
    obtain ⟨hm, rfl⟩ := withMaxExpiredRemovalsPerCheck_ok hconfig
    rw [(GcraStore.run_eq config calls).1, (GcraStore.run_eq (config.withRemovals m hm) calls).1,
      run_withRemovals]

/-- One key fits, and one removal is made per check. -/
def tinyConfig : MemoryStoreConfig :=
  ⟨1, 1, 1, 2, by decide, Nat.one_pos, by decide, Nat.one_pos, Nat.two_pos, by decide⟩

/-- Two keys in one shard. -/
def pairConfig : MemoryStoreConfig :=
  ⟨2, 1, 1, 2, by decide, Nat.one_pos, by decide, Nat.one_pos, Nat.two_pos, by decide⟩

/-- A check that fills the store. -/
def fillingCall : letI := vectorSha2; Call FixedWindowPolicy :=
  letI := vectorSha2
  ⟨Duration.fromMillis 5, .check (Check.new loginPolicy (Digest.replicate 1))⟩

/-- A check of another key, before the first one expires. -/
def refusedCall : letI := vectorSha2; Call FixedWindowPolicy :=
  letI := vectorSha2
  ⟨Duration.fromMillis 7, .check (Check.new searchPolicy (Digest.replicate 2))⟩

/-- The second of two keys is refused by a store for one key, rightly, and just as with
another removal budget. -/
theorem cleanup_unobservable_tiny :
    letI := vectorSha2
    MemoryStore.run tinyConfig [fillingCall, refusedCall] =
        RefStore.run fixedWindow tinyConfig [fillingCall, refusedCall] ∧
      (∃ c, refusedCall.request.checks[0]? = some c ∧
        (MemoryStore.after tinyConfig [fillingCall]).Exceeded
          (MemoryStore.serve refusedCall (MemoryStore.after tinyConfig [fillingCall])).1.nowMillis
          refusedCall.request.checks (c.shard tinyConfig)) ∧
      MemoryStore.run (tinyConfig.withRemovals 8 (by decide)) [fillingCall, refusedCall] =
        MemoryStore.run tinyConfig [fillingCall, refusedCall] := by
  let := vectorSha2
  have hsub : policies [fillingCall, refusedCall] ⊆ {loginPolicy, searchPolicy} := by
    rintro p ⟨call, hcall, c, hc, rfl⟩
    rcases List.mem_pair.1 hcall with rfl | rfl
    · rw [List.mem_singleton.1 hc]
      exact Or.inl rfl
    · rw [List.mem_singleton.1 hc]
      exact Or.inr rfl
  have hfree : MemoryStore.CollisionFree [fillingCall, refusedCall] :=
    vector_fixedWindow_injOn.mono (Set.image_mono hsub)
  obtain ⟨hrun, hjustified, hbudget⟩ := (cleanup_unobservable tinyConfig).1 _ hfree
  exact ⟨hrun, hjustified [fillingCall] refusedCall [] rfl 0 (by decide +kernel), hbudget 8 _ rfl⟩

end Runlimit
