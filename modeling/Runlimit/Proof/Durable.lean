import Runlimit.Proof.KeySteps
import Runlimit.Proof.Postgres
import Runlimit.Proof.SingleCheck

/-!
# A durable limiter and the reference store

Both durable limiters decide a batch in the same way: every check is evaluated on the live row of its
key, and the first check without quota, or without room for a new row, is the denial
(`Durable.evaluate`). Stated for any algorithm, over what is stored for each key:

* `live_mono`, `live_putAll`: stores that agree on the live entries at a time agree on them later, and
  after both have stored the entries of a batch;
* `compared`: on stores that agree on the live entries, and without a lack of storage, the durable
  limiter and the reference store come to the same decision.
-/

namespace Runlimit

open Gcra (ArithmeticOverflow)

namespace Durable

variable {P E : Type} [RateLimitPolicy P] {memory : MemoryStoreConfig} {store : RefStore memory E}
  {stored stored' : CounterKey → Option (StoredEntry E)} {time now : ℕ}

/-! ## Live entries -/

/-- The live entry of a key, given what is stored. -/
def live (stored : CounterKey → Option (StoredEntry E)) (now : ℕ) (key : CounterKey) : Option (StoredEntry E) :=
  (stored key).filter fun entry => decide (now < entry.expiresAtMillis)

/-- The entry is stored and has not expired. -/
theorem live_eq_some {key : CounterKey} {entry : StoredEntry E} :
    live stored now key = some entry ↔ stored key = some entry ∧ now < entry.expiresAtMillis := by
  unfold live
  simp only [Option.filter_eq_some_iff, decide_eq_true_eq]

/-- What agrees at a time agrees later. -/
theorem live_mono (h : ∀ key, live stored time key = live stored' time key) (hle : time ≤ now) (key : CounterKey) :
    live stored now key = live stored' now key := by
  ext entry
  have hentry : live stored time key = some entry ↔ live stored' time key = some entry := by rw [h key]
  rw [live_eq_some, live_eq_some] at *
  constructor
  · rintro ⟨hstored, hlive⟩
    exact ⟨(hentry.1 ⟨hstored, by omega⟩).1, hlive⟩
  · rintro ⟨hstored, hlive⟩
    exact ⟨(hentry.2 ⟨hstored, by omega⟩).1, hlive⟩

/-- What a reference store holds for a key. -/
def entryOf (store : RefStore memory E) (key : CounterKey) : Option (StoredEntry E) :=
  (store (memory.shardIndex key)).entries.lookup key

/-- Shards that have advanced to a time have the same live entries then. -/
theorem live_advance (shards : Finset (Fin memory.shardCount)) (key : CounterKey) :
    live (entryOf (store.advance shards now)) now key = live (entryOf store) now key := by
  ext entry
  rw [live_eq_some, live_eq_some]
  unfold entryOf RefStore.advance
  split
  · rw [RefShard.lookup_advance, and_assoc, and_self]
  · rfl

/-- The entry a batch finds for one of its checks is the live one. -/
theorem entry_advance {checks : List (Check P)} {c : Check P} (hc : c ∈ checks) :
    (store.advance (touched memory checks) now).entry c = live (entryOf store) now c.counterKey := by
  ext entry
  have hshard : memory.shardIndex c.counterKey ∈ touched memory checks := mem_touched.2 ⟨c, hc, rfl⟩
  rw [live_eq_some]
  unfold RefStore.entry Check.shard entryOf
  rw [RefStore.advance_of_mem hshard, RefShard.lookup_advance]

/-- Two stores that stored the entries of a batch agree as before. -/
theorem live_putAll (h : ∀ key, live stored time key = live (entryOf store) time key) {checks : List (Check P)}
    {verdicts : List (Check P × Verdict E)} (hchecks : verdicts.map Prod.fst = checks)
    (hnodup : (checks.map Check.counterKey).Nodup)
    (hmem : ∀ p ∈ verdicts, ∃ entry allowance, p.2 = .allowed entry allowance ∧ stored' p.1.counterKey = some entry)
    (hother : ∀ key, (∀ c ∈ checks, c.counterKey ≠ key) → stored' key = stored key) (key : CounterKey) :
    live stored' time key =
      live (entryOf ((store.advance (touched memory checks) time).putAll verdicts)) time key := by
  by_cases hkey : ∃ p ∈ verdicts, p.1.counterKey = key
  · obtain ⟨⟨c, v⟩, hp, rfl⟩ := hkey
    obtain ⟨entry, allowance, hv, hstored⟩ := hmem _ hp
    simp only at hv
    subst hv
    -- a key of the batch: both stored the entry of its verdict
    have hentry := RefStore.lookup_putAll_of_mem (store.advance (touched memory checks) time)
      (nodup_verdicts hchecks hnodup) hp
    have hput : entryOf ((store.advance (touched memory checks) time).putAll verdicts) c.counterKey = some entry := hentry
    unfold live
    rw [hstored, hput]
  · -- any other key: neither store wrote it
    have hcheck : ∀ c ∈ checks, c.counterKey ≠ key := by
      rintro c hc rfl
      rw [← hchecks] at hc
      obtain ⟨p, hp, rfl⟩ := List.mem_map.1 hc
      exact hkey ⟨p, hp, rfl⟩
    have hput : entryOf ((store.advance (touched memory checks) time).putAll verdicts) key =
        entryOf (store.advance (touched memory checks) time) key :=
      RefStore.lookup_putAll_of_notMem _ _ fun p hp heq => hkey ⟨p, hp, heq⟩
    have hadvance := @live_advance _ memory store time (touched memory checks) key
    have hbefore := h key
    unfold live at *
    rw [hother key hcheck, hput, hadvance, hbefore]

/-! ## The decision about a batch -/

/-- The first denial of a batch; `fresh` says which keys have no row, and `counts` counts the rows of
a shard, with those the batch would add. -/
def firstDenial (maximum : ℕ) (fresh : CounterKey → Bool) :
    ℕ → (CapacityShard → ℕ) → List (Check P × Verdict E) → Option Admission
  | _, _, [] => none
  | index, _, (c, .denied denial) :: _ => some (quotaAdmission c.quotaMode index denial)
  | index, counts, (c, .allowed _ _) :: rest =>
    let shard := capacityShard c.counterKey
    if fresh c.counterKey then
      if maximum ≤ counts shard then some (.denied index (.storageCapacity none))
      else firstDenial maximum fresh (index + 1) (Function.update counts shard (counts shard + 1)) rest
    else firstDenial maximum fresh (index + 1) counts rest

/-- A batch without a denial found quota for every check. -/
theorem firstDenial_none {maximum : ℕ} {fresh : CounterKey → Bool} : ∀ {verdicts : List (Check P × Verdict E)}
    {index : ℕ} {counts : CapacityShard → ℕ}, firstDenial maximum fresh index counts verdicts = none →
    ∀ p ∈ verdicts, ∃ entry allowance, p.2 = .allowed entry allowance := by
  intro verdicts
  induction verdicts with
  | nil => exact fun {_ _} _ p hp => absurd hp List.not_mem_nil
  | cons p rest ih =>
    intro index counts h
    obtain ⟨c, v⟩ := p
    rw [List.forall_mem_cons]
    cases v with
    | denied denial => cases h
    | allowed entry allowance =>
      refine ⟨⟨entry, allowance, rfl⟩, ?_⟩
      unfold firstDenial at h
      simp only at h
      split at h
      · split at h
        · cases h
        · exact ih h
      · exact ih h

/-- What a batch comes to. -/
inductive Outcome (P E : Type) [RateLimitPolicy P] where
  | overflow
  | denied (admission : Admission)
  | allowed (verdicts : List (Check P × Verdict E))

/-- The decision about a batch, on what is stored. -/
def evaluate (alg : Algorithm P E) (maximum now : ℕ) (stored : CounterKey → Option (StoredEntry E))
    (counts : CapacityShard → ℕ) (checks : List (Check P)) : Outcome P E :=
  match evaluateAll alg now (fun c => live stored now c.counterKey) checks with
  | .error _ => .overflow
  | .ok verdicts =>
    match firstDenial maximum (fun key => (stored key).isNone) 0 counts verdicts with
    | some admission => .denied admission
    | none => .allowed verdicts

/-- An allowed batch found quota everywhere and was not denied. -/
theorem evaluate_allowed {alg : Algorithm P E} {maximum : ℕ} {counts : CapacityShard → ℕ} {checks : List (Check P)}
    {verdicts : List (Check P × Verdict E)} (h : evaluate alg maximum now stored counts checks = .allowed verdicts) :
    evaluateAll alg now (fun c => live stored now c.counterKey) checks = .ok verdicts ∧
      firstDenial maximum (fun key => (stored key).isNone) 0 counts verdicts = none := by
  unfold evaluate at h
  split at h
  · cases h
  · rename_i hverdicts
    split at h
    · cases h
    · rename_i hnone
      cases h
      exact ⟨hverdicts, hnone⟩

/-- The first check without quota: its index, the check and the denial. -/
def firstQuota : ℕ → List (Check P × Verdict E) → Option (ℕ × Check P × QuotaDenial)
  | _, [] => none
  | index, (c, .denied denial) :: _ => some (index, c, denial)
  | index, (_, .allowed _ _) :: rest => firstQuota (index + 1) rest

/-- The index is one of the batch's. -/
theorem firstQuota_lt : ∀ {verdicts : List (Check P × Verdict E)} {index j : ℕ} {c : Check P} {denial : QuotaDenial},
    firstQuota index verdicts = some (j, c, denial) → j < index + verdicts.length := by
  intro verdicts
  induction verdicts with
  | nil =>
    intro index j c denial h
    cases h
  | cons p rest ih =>
    intro index j c denial h
    obtain ⟨d, v⟩ := p
    rw [List.length_cons]
    cases v with
    | denied quota =>
      cases h
      omega
    | allowed entry allowance =>
      have hlt := ih h
      omega

/-- The first denial of the durable limiter is for lack of storage, or it is the first quota denial. -/
theorem firstDenial_firstQuota {maximum : ℕ} {fresh : CounterKey → Bool} :
    ∀ {verdicts : List (Check P × Verdict E)} {index : ℕ} {counts : CapacityShard → ℕ},
    (∃ j, firstDenial maximum fresh index counts verdicts = some (.denied j (.storageCapacity none)) ∧
      j < index + verdicts.length) ∨
    firstDenial maximum fresh index counts verdicts =
      (firstQuota index verdicts).map fun p => quotaAdmission p.2.1.quotaMode p.1 p.2.2 := by
  intro verdicts
  induction verdicts with
  | nil => exact fun {_ _} => Or.inr rfl
  | cons p rest ih =>
    intro index counts
    obtain ⟨c, v⟩ := p
    rw [List.length_cons]
    cases v with
    | denied denial => exact Or.inr rfl
    | allowed entry allowance =>
      unfold firstDenial firstQuota
      simp only
      split
      · split
        · -- a new key in a full shard comes before any later quota denial
          exact Or.inl ⟨index, rfl, by omega⟩
        · rcases @ih (index + 1) (Function.update counts (capacityShard c.counterKey)
            (counts (capacityShard c.counterKey) + 1)) with ⟨j, hj, hlt⟩ | hquota
          · exact Or.inl ⟨j, hj, by omega⟩
          · exact Or.inr hquota
      · rcases @ih (index + 1) counts with ⟨j, hj, hlt⟩ | hquota
        · exact Or.inl ⟨j, hj, by omega⟩
        · exact Or.inr hquota

/-- The scan of the reference store finds a lack of storage, or the first quota denial. -/
theorem scan_firstQuota {size : ℕ} {present : CounterKey → Bool} {used : Fin memory.shardCount → ℕ}
    {full : Fin memory.shardCount → Denial} (hfull : ∀ i, ∃ after, full i = .storageCapacity after) :
    ∀ {verdicts : List (Check P × Verdict E)} {index : ℕ} {pending : Fin memory.shardCount → ℕ},
    (∃ j after, scan memory size present used full index pending verdicts =
      some (.denied j size (.storageCapacity after))) ∨
    scan memory size present used full index pending verdicts =
      (firstQuota index verdicts).map fun p => .quotaExceeded p.2.1.quotaMode p.1 size p.2.2 := by
  intro verdicts
  induction verdicts with
  | nil => exact fun {_ _} => Or.inr rfl
  | cons p rest ih =>
    intro index pending
    obtain ⟨c, v⟩ := p
    cases v with
    | denied denial => exact Or.inr rfl
    | allowed entry allowance =>
      unfold scan firstQuota
      simp only
      split
      · exact ih
      · split
        · obtain ⟨after, hafter⟩ := hfull (c.shard memory)
          rw [hafter]
          exact Or.inl ⟨index, after, rfl⟩
        · exact ih

/-! ## Comparison -/

/-- The memory store refuses a batch for lack of storage. -/
def outOfStorage : Except GcraBatchError BatchDecision → Bool
  | .ok ⟨.denied _ _ (.storageCapacity _)⟩ => true
  | .error (.store (.batchExceedsShardCapacity _ _ _)) => true
  | _ => false

/-- What a batch comes to in both stores, without a lack of storage. -/
inductive Settled (time : ℕ) (checks : List (Check P)) (store : RefStore memory E) :
    Outcome P E → Except GcraBatchError BatchDecision × RefStore memory E → Prop where
  | overflow : Settled time checks store .overflow (.error .arithmeticOverflow, store)
  | denied (index : ℕ) (hindex : index < checks.length) (c : Check P) (denial : QuotaDenial) :
      Settled time checks store (.denied (quotaAdmission c.quotaMode index denial))
        (.ok ⟨.quotaExceeded c.quotaMode index checks.length denial⟩, store.advance (touched memory checks) time)
  | allowed (verdicts : List (Check P × Verdict E)) (hchecks : verdicts.map Prod.fst = checks)
      (hallowed : ∀ p ∈ verdicts, ∃ entry allowance, p.2 = .allowed entry allowance) :
      Settled time checks store (.allowed verdicts)
        (.ok ⟨.allowed (allowances verdicts)⟩, (store.advance (touched memory checks) time).putAll verdicts)

/-- What a batch comes to in both stores. -/
inductive Compared (time : ℕ) (checks : List (Check P)) (store : RefStore memory E) (outcome : Outcome P E)
    (result : Except GcraBatchError BatchDecision × RefStore memory E) : Prop where
  | settled (h : Settled time checks store outcome result)
  | refused (hresult : outOfStorage result.1 = true)
  | full (index : ℕ) (hindex : index < checks.length) (houtcome : outcome = .denied (.denied index (.storageCapacity none)))

/-- **A durable limiter that sees the live entries of the reference store decides as it does**, but for
lack of storage. -/
theorem compared {alg : Algorithm P E} {maximum : ℕ} {counts : CapacityShard → ℕ} {checks : List (Check P)}
    (h : ∀ key, live stored time key = live (entryOf store) time key)
    (hvalid : validateBatch checks memory.maxBatchSize = .ok ()) :
    Compared time checks store (evaluate alg maximum time stored counts checks)
      (RefStore.checkAll alg time checks store) := by
  have hverdicts : evaluateAll alg time (store.advance (touched memory checks) time).entry checks =
      evaluateAll alg time (fun c => live stored time c.counterKey) checks := by
    refine evaluateAll_congr ?_
    intro c hc
    rw [entry_advance hc, h]
  unfold RefStore.checkAll evaluate
  simp only [hvalid, hverdicts]
  cases hrouted : overfull memory checks with
  | some error =>
    unfold overfull at hrouted
    obtain ⟨i, -, rfl⟩ := Option.map_eq_some_iff.1 hrouted
    -- a batch that no empty shard of the memory store could take
    exact .refused rfl
  | none =>
    simp only
    cases hevaluated : evaluateAll alg time (fun c => live stored time c.counterKey) checks with
    | error e => exact .settled .overflow
    | ok verdicts =>
      obtain ⟨hfst, -⟩ := evaluateAll_ok hevaluated
      have hlength : verdicts.length = checks.length := by rw [← hfst, List.length_map]
      have hscan := @scan_firstQuota _ _ _ memory checks.length
        (fun key => decide (key ∈ (store.advance (touched memory checks) time (memory.shardIndex key)).entries.keys))
        (fun i => (store.advance (touched memory checks) time i).entries.keys.card)
        (fun i => (store.advance (touched memory checks) time i).full time) (fun i => ⟨_, rfl⟩) verdicts 0 (fun _ => 0)
      have hfirst := @firstDenial_firstQuota _ _ _ maximum (fun key => (stored key).isNone) verdicts 0 counts
      simp only
      generalize scan memory checks.length _ _ _ 0 (fun _ => 0) verdicts = scanned at hscan ⊢
      -- either store may stop for storage first; where neither does, both stop at the first check without quota
      rcases hscan with ⟨j, after, rfl⟩ | rfl
      · exact .refused rfl
      · rcases hfirst with ⟨j, hj, hlt⟩ | hquota
        · rw [hj]
          exact .full j (by omega) rfl
        · have hnone := @firstDenial_none _ _ _ maximum (fun key => (stored key).isNone) verdicts 0 counts
          rw [hquota] at hnone ⊢
          cases hq : firstQuota 0 verdicts with
          | some p =>
            have hlt := firstQuota_lt hq
            exact .settled (.denied p.1 (by omega) p.2.1 p.2.2)
          | none =>
            refine .settled (.allowed verdicts hfst (hnone ?_))
            rw [hq]
            rfl

/-! ## Answers -/

/-- `gcra::evaluate` left the range of exact arithmetic. -/
def overflow : PgCheckError := .storageInvariant "GCRA arithmetic exceeded exact range"

/-- The decision a durable limiter builds. -/
def decided {D : Type} (build : Admission → Except PgCheckError D) : Outcome P E → Except PgCheckError D
  | .overflow => .error overflow
  | .denied admission => build admission
  | .allowed verdicts => build (.allowed (allowances verdicts))

variable {checks : List (Check P)} {outcome : Outcome P E} {result : Except GcraBatchError BatchDecision × RefStore memory E}

/-- A decision that no allowance leads to was built from a denial. -/
theorem denied_of_decided {D : Type} {build : Admission → Except PgCheckError D} {decision : D}
    (h : decided build outcome = .ok decision) (hbuild : ∀ allowances, build (.allowed allowances) ≠ .ok decision) :
    ∃ admission, outcome = .denied admission := by
  cases outcome with
  | overflow => cases h
  | denied admission => exact ⟨admission, rfl⟩
  | allowed verdicts => exact absurd h (hbuild _)

/-- The number of allowances of a batch that is allowed. -/
theorem length_allowances : ∀ {verdicts : List (Check P × Verdict E)},
    (∀ p ∈ verdicts, ∃ entry allowance, p.2 = .allowed entry allowance) →
    (allowances verdicts).length = verdicts.length := by
  intro verdicts
  induction verdicts with
  | nil => exact fun _ => rfl
  | cons p rest ih =>
    intro h
    rw [List.forall_mem_cons] at h
    obtain ⟨⟨entry, allowance, hv⟩, hrest⟩ := h
    obtain ⟨c, v⟩ := p
    simp only at hv
    subst hv
    have hcons : (allowances ((c, .allowed entry allowance) :: rest)).length = (allowances rest).length + 1 := rfl
    rw [hcons, List.length_cons, ih hrest]

/-- Both stores answer a batch alike. -/
theorem Settled.batch (h : Settled time checks store outcome result) (hne : checks ≠ []) :
    (outcome = .overflow ∧ result.1 = .error .arithmeticOverflow) ∨
      ∃ decision, decided (batchDecision checks.length) outcome = .ok decision ∧ result.1 = .ok decision := by
  cases h with
  | overflow => exact Or.inl ⟨rfl, rfl⟩
  | denied index hindex c denial =>
    exact Or.inr ⟨_, batchDecision_quota c.quotaMode hindex denial, rfl⟩
  | allowed verdicts hchecks hallowed =>
    have hlength : (allowances verdicts).length = checks.length := by
      rw [length_allowances hallowed, ← hchecks, List.length_map]
    -- a batch has a check, so it has an allowance
    have hnonempty : allowances verdicts ≠ [] := by
      intro hnil
      rw [hnil] at hlength
      exact hne (List.length_eq_zero_iff.1 hlength.symm)
    refine Or.inr ⟨⟨.allowed (allowances verdicts)⟩, ?_, rfl⟩
    unfold decided
    simp only [← hlength]
    exact batchDecision_eq hnonempty

/-- A batch is settled where neither store refuses it for lack of storage. -/
theorem Compared.settled_batch (h : Compared time checks store outcome result)
    (hdurable : ∀ index size after, decided (batchDecision checks.length) outcome ≠
      .ok ⟨.denied index size (.storageCapacity after)⟩) (hmemory : outOfStorage result.1 = false) :
    Settled time checks store outcome result := by
  cases h with
  | settled h => exact h
  | refused hresult =>
    rw [hresult] at hmemory
    cases hmemory
  | full index hindex houtcome =>
    subst houtcome
    exact absurd (batchDecision_storage hindex) (hdurable index _ none)

/-- Both stores answer a check alike; the memory store's answer is that to the batch of one. -/
theorem Settled.single {c : Check P} (h : Settled time [c] store outcome result)
    {checked : CallResult (Except GcraCheckError Decision)}
    (hchecked : (Response.check checked).asBatch = .checkAll (.returned result.1)) :
    (outcome = .overflow ∧ checked = .returned (.error .arithmeticOverflow)) ∨
      ∃ decision, decided singleDecision outcome = .ok decision ∧ checked = .returned (.ok decision) := by
  cases h with
  | overflow =>
    obtain rfl := @asBatch_inj checked (.returned (.error .arithmeticOverflow)) hchecked
    exact Or.inl ⟨rfl, rfl⟩
  | denied index hindex d denial =>
    obtain rfl : index = 0 := by
      rw [List.length_singleton] at hindex
      omega
    have hdecision : (Response.check (.returned (.ok (Decision.quotaExceeded d.quotaMode denial)))).asBatch =
        .checkAll (.returned (.ok ⟨.quotaExceeded d.quotaMode 0 1 denial⟩)) := by
      unfold Decision.quotaExceeded BatchOutcome.quotaExceeded
      split
      · rfl
      · rfl
    obtain rfl := asBatch_inj (hchecked.trans hdecision.symm)
    exact Or.inr ⟨_, singleDecision_quota d.quotaMode denial, rfl⟩
  | allowed verdicts hchecks hallowed =>
    have hlength : (allowances verdicts).length = 1 := by
      rw [length_allowances hallowed, ← @List.length_singleton _ c, ← hchecks, List.length_map]
    obtain ⟨allowance, hone⟩ := List.length_eq_one_iff.1 hlength
    rw [hone] at hchecked
    obtain rfl := @asBatch_inj checked (.returned (.ok (.allowed allowance))) hchecked
    refine Or.inr ⟨.allowed allowance, ?_, rfl⟩
    unfold decided
    simp only [hone]
    rfl

/-- A check is settled where neither store refuses it for lack of storage. -/
theorem Compared.settled_single {c : Check P} (h : Compared time [c] store outcome result)
    {checked : CallResult (Except GcraCheckError Decision)}
    (hchecked : (Response.check checked).asBatch = .checkAll (.returned result.1))
    (hdurable : ∀ after, decided singleDecision outcome ≠ .ok (.denied (.storageCapacity after)))
    (hmemory : ∀ after, checked ≠ .returned (.ok (.denied (.storageCapacity after)))) :
    Settled time [c] store outcome result := by
  cases h with
  | settled h => exact h
  | refused hresult =>
    exfalso
    cases checked with
    | panicked => cases hchecked
    | returned checked =>
      rw [← CallResult.returned.inj (Response.checkAll.inj hchecked)] at hresult
      cases checked with
      | error e =>
        cases e with
        | poisonedShard e => cases hresult
        | arithmeticOverflow => cases hresult
      | ok decision =>
        cases decision with
        | allowed allowance => cases hresult
        | shadowDenied denial => cases hresult
        | denied denial =>
          cases denial with
          | quotaExceeded denial => cases hresult
          | storageCapacity after => exact hmemory after rfl
  | full index hindex houtcome =>
    subst houtcome
    obtain rfl : index = 0 := by
      rw [List.length_singleton] at hindex
      omega
    exact absurd rfl (hdurable none)

end Durable

end Runlimit
