import Runlimit.Proof.KeySteps

/-!
# A batch is its checks, one after another

On the reference store. What an operation at `now` reads of a store is what is live in it at
`now`, so a store may be replaced by its *settled* form, in which every shard has advanced to
`now` (`settle`); on a settled store the clean-up of an operation does nothing. There the scan of
a batch and a run of single checks are compared check by check: the scan counts the keys it would
insert, and the run has inserted them. Main results:

* `each_of_scan`: the run of single checks follows the scan up to its first denial;
* `overfull_of_each`: a batch whose single checks are all allowed fits into the shards;
* `checkAll_each`: the two operations on settled stores.
-/

namespace Runlimit

open Gcra (ArithmeticOverflow)

variable {P E : Type} [RateLimitPolicy P] {config : MemoryStoreConfig}

/-! ## Settled stores -/

namespace RefShard

variable {s : RefShard E} {now : ℕ}

/-- Time may pass in one step or in two. -/
theorem advance_advance_of_le {time : ℕ} (h : time ≤ now) (s : RefShard E) :
    (s.advance time).advance now = s.advance now := by
  refine RefShard.ext rfl (Finmap.ext_lookup fun key => ?_)
  unfold advance
  simp only [Finmap.lookup_filter]
  cases s.entries.lookup key with
  | none => rfl
  | some entry =>
    by_cases hlive : time < entry.expiresAtMillis
    · rw [Option.filter_some_pos (by simpa using hlive)]
    · -- what has expired at the first stop has expired at the second
      have hexpired : ¬now < entry.expiresAtMillis := by omega
      rw [Option.filter_some_neg (by simpa using hlive), Option.filter_some_neg (by simpa using hexpired)]
      rfl

theorem advance_advance (s : RefShard E) (now : ℕ) : (s.advance now).advance now = s.advance now :=
  advance_advance_of_le le_rfl s

/-- Storing a live entry commutes with the passing of time. -/
theorem advance_put {key : CounterKey} {entry : StoredEntry E} (hlive : now < entry.expiresAtMillis) :
    (s.put key entry).advance now = (s.advance now).put key entry := by
  refine RefShard.ext rfl (Finmap.ext_lookup fun k => ?_)
  unfold advance put
  simp only [Finmap.lookup_filter, Finmap.lookup_insert_if]
  by_cases hk : k = key
  · rw [if_pos hk, if_pos hk, Option.filter_some_pos (by simpa using hlive)]
  · rw [if_neg hk, if_neg hk]

end RefShard

namespace RefStore

variable {store v w : RefStore config E} {now : ℕ} {alg : Algorithm P E}
  {shards : Finset (Fin config.shardCount)}

/-- The shards have advanced to `now` already. -/
def Settled (shards : Finset (Fin config.shardCount)) (now : ℕ) (v : RefStore config E) : Prop :=
  ∀ i ∈ shards, (v i).advance now = v i

/-- Shards that have advanced are settled. -/
theorem advance_settled (store : RefStore config E) (shards : Finset (Fin config.shardCount)) (now : ℕ) :
    Settled shards now (store.advance shards now) := by
  intro i hi
  rw [advance_of_mem hi]
  exact (store i).advance_advance now

/-- On settled shards no time passes. -/
theorem Settled.advance (hv : Settled shards now v) {touched : Finset (Fin config.shardCount)}
    (hsub : touched ⊆ shards) : v.advance touched now = v := by
  funext i
  by_cases hi : i ∈ touched
  · rw [advance_of_mem hi]
    exact hv i (hsub hi)
  · exact advance_of_notMem hi

/-- Time that has passed need not pass again. -/
theorem advance_advance (store : RefStore config E) {touched : Finset (Fin config.shardCount)}
    (hsub : touched ⊆ shards) (now : ℕ) : (store.advance touched now).advance shards now = store.advance shards now := by
  funext i
  by_cases hi : i ∈ shards
  · rw [advance_of_mem hi, advance_of_mem hi]
    by_cases htouched : i ∈ touched
    · rw [advance_of_mem htouched]
      exact (store i).advance_advance now
    · rw [advance_of_notMem htouched]
  · rw [advance_of_notMem hi, advance_of_notMem hi, advance_of_notMem fun h => hi (hsub h)]

/-- Storing a live entry commutes with the passing of time, in a store. -/
theorem advance_update_put {i : Fin config.shardCount} (hi : i ∈ shards) {key : CounterKey}
    {entry : StoredEntry E} (hlive : now < entry.expiresAtMillis) :
    advance (Function.update store i ((store i).put key entry)) shards now =
      Function.update (store.advance shards now) i ((store.advance shards now i).put key entry) := by
  funext j
  by_cases hj : j = i
  · subst hj
    rw [Function.update_self, advance_of_mem hi, advance_of_mem hi, Function.update_self,
      RefShard.advance_put hlive]
  · rw [Function.update_of_ne hj]
    by_cases hmem : j ∈ shards
    · rw [advance_of_mem hmem, advance_of_mem hmem, Function.update_of_ne hj]
    · rw [advance_of_notMem hmem, advance_of_notMem hmem, Function.update_of_ne hj]

theorem Settled.update_put (hv : Settled shards now v) {i : Fin config.shardCount} {key : CounterKey}
    {entry : StoredEntry E} (hlive : now < entry.expiresAtMillis) :
    Settled shards now (Function.update v i ((v i).put key entry)) := by
  intro j hmem
  by_cases hj : j = i
  · subst hj
    rw [Function.update_self, RefShard.advance_put hlive, hv j hmem]
  · rw [Function.update_of_ne hj, hv j hmem]

/-- Nothing in the shards lasts longer than the portable window from `now`. -/
def Within (shards : Finset (Fin config.shardCount)) (now : ℕ) (store : RefStore config E) : Prop :=
  ∀ i ∈ shards, ∀ key entry, (store i).entries.lookup key = some entry →
    entry.expiresAtMillis ≤ now + maxWindowMillis

theorem Within.advance (h : Within shards now store) (touched : Finset (Fin config.shardCount)) :
    Within shards now (store.advance touched now) := by
  intro i hi key entry hentry
  unfold RefStore.advance at hentry
  split at hentry
  · exact h i hi key entry (RefShard.lookup_advance.1 hentry).1
  · exact h i hi key entry hentry

theorem Within.update_put (h : Within shards now store) {i : Fin config.shardCount} {key : CounterKey}
    {entry : StoredEntry E} (hle : entry.expiresAtMillis ≤ now + maxWindowMillis) :
    Within shards now (Function.update store i ((store i).put key entry)) := by
  intro j hmem key' entry' hentry
  by_cases hj : j = i
  · subst hj
    rw [Function.update_self] at hentry
    unfold RefShard.put at hentry
    rw [Finmap.lookup_insert_if] at hentry
    split at hentry
    · -- the stored entry is within the window, and the others were
      cases hentry
      exact hle
    · exact h _ hmem _ _ hentry
  · rw [Function.update_of_ne hj] at hentry
    exact h _ hmem _ _ hentry

/-- An entry an allowed check stores is live, and within the window. -/
theorem Within.verdict (h : Within shards now store) {i : Fin config.shardCount} (hi : i ∈ shards) {c : Check P}
    {entry : StoredEntry E} {allowance : Allowance}
    (hverdict : alg.evaluate c now (((store i).advance now).entries.lookup c.counterKey) =
      .ok (.allowed entry allowance)) :
    now < entry.expiresAtMillis ∧ entry.expiresAtMillis ≤ now + maxWindowMillis := by
  refine alg.expires_bound hverdict ?_
  intro e he
  obtain ⟨hentry, hlive⟩ := RefShard.lookup_advance.1 he
  exact ⟨hlive, h i hi _ _ hentry⟩

theorem entry_advance_self (store : RefStore config E) (c : Check P) (now : ℕ) :
    (store.advance {c.shard config} now).entry c =
      ((store (c.shard config)).advance now).entries.lookup c.counterKey := by
  unfold entry
  rw [advance_of_mem (Finset.mem_singleton_self _)]

/-- **A single check acts on the settled shards**, its own among them. -/
theorem check_advance (h : Within shards now store) {c : Check P} (hc : c.shard config ∈ shards) :
    check alg now c (store.advance shards now) =
        ((check alg now c store).1, (check alg now c store).2.advance shards now) ∧
      Within shards now (check alg now c store).2 := by
  have hsub : ({c.shard config} : Finset (Fin config.shardCount)) ⊆ shards := Finset.singleton_subset_iff.2 hc
  have hsettled : (store.advance shards now).advance {c.shard config} now = store.advance shards now :=
    (advance_settled store shards now).advance hsub
  have hshard : store.advance shards now (c.shard config) = (store (c.shard config)).advance now :=
    advance_of_mem hc
  have hadvanced : store.advance {c.shard config} now (c.shard config) = (store (c.shard config)).advance now :=
    advance_of_mem (Finset.mem_singleton_self _)
  have hentry := entry_advance_self store c now
  have hentry' : (store.advance shards now).entry c =
      ((store (c.shard config)).advance now).entries.lookup c.counterKey := by
    unfold RefStore.entry
    rw [hshard]
  unfold check
  simp only [hsettled, hentry, hentry', hshard, hadvanced]
  cases hverdict : alg.evaluate c now (((store (c.shard config)).advance now).entries.lookup c.counterKey) with
  | error e => exact ⟨rfl, h⟩
  | ok verdict =>
    cases verdict with
    | denied d => exact ⟨by rw [advance_advance store hsub], h.advance _⟩
    | allowed entry allowance =>
      obtain ⟨hlive, hle⟩ := h.verdict hc hverdict
      by_cases hfull : c.counterKey ∉ ((store (c.shard config)).advance now).entries.keys ∧
          config.shardCapacity (c.shard config) ≤ ((store (c.shard config)).advance now).entries.keys.card
      · simp only [if_pos hfull]
        exact ⟨by rw [advance_advance store hsub], h.advance _⟩
      · -- an allowed check stores a live entry, which no later time of these shards removes
        simp only [if_neg hfull]
        have hput := @advance_update_put _ _ (store.advance {c.shard config} now) now shards (c.shard config) hc
          c.counterKey entry hlive
        have hwithin := @Within.update_put _ _ _ _ _ (h.advance {c.shard config}) (c.shard config) c.counterKey
          entry hle
        rw [hadvanced] at hput hwithin
        rw [advance_advance store hsub, hshard] at hput
        exact ⟨by rw [hput], hwithin⟩

/-- A single check of a store that is settled on its shard. -/
theorem check_settled (hv : Settled shards now v) {c : Check P} (hc : c.shard config ∈ shards) :
    check alg now c v =
      match alg.evaluate c now (v.entry c) with
      | .error error => (.error error, v)
      | .ok (.denied denial) => (.ok (.quotaExceeded c.quotaMode denial), v)
      | .ok (.allowed entry allowance) =>
        if c.counterKey ∉ (v (c.shard config)).entries.keys ∧
            config.shardCapacity (c.shard config) ≤ (v (c.shard config)).entries.keys.card then
          (.ok (.denied ((v (c.shard config)).full now)), v)
        else
          (.ok (.allowed allowance),
            Function.update v (c.shard config) ((v (c.shard config)).put c.counterKey entry)) := by
  unfold check
  dsimp only
  rewrite [hv.advance (Finset.singleton_subset_iff.2 hc)]
  rfl

end RefStore

/-! ## Batches and single checks -/

/-- The index of the check a batch was denied for. -/
def BatchOutcome.deniedIndex : BatchOutcome → Option ℕ
  | .allowed _ => none
  | .denied index _ _ => some index
  | .shadowDenied index _ _ => some index

/-- A single check is denied for the same reason as a batch: after the same time if the quota is
exceeded. A full shard may name another time, since it also holds the keys inserted before. -/
def BatchOutcome.SameKind : BatchOutcome → Decision → Prop
  | .denied _ _ (.quotaExceeded denial), .denied (.quotaExceeded denial') => denial = denial'
  | .denied _ _ (.storageCapacity _), .denied (.storageCapacity _) => True
  | .shadowDenied _ _ denial, .shadowDenied denial' => denial = denial'
  | _, _ => False

/-- A quota denial of the batch is that of the check. -/
theorem sameKind_quotaExceeded (mode : QuotaMode) (index size : ℕ) (denial : QuotaDenial) :
    (BatchOutcome.quotaExceeded mode index size denial).SameKind (.quotaExceeded mode denial) ∧
      (BatchOutcome.quotaExceeded mode index size denial).deniedIndex = some index := by
  unfold BatchOutcome.quotaExceeded Decision.quotaExceeded
  by_cases hmode : mode = .shadow
  · rw [if_pos hmode, if_pos hmode]
    exact ⟨rfl, rfl⟩
  · rw [if_neg hmode, if_neg hmode]
    exact ⟨rfl, rfl⟩

namespace RefStore

variable {store v w : RefStore config E} {now : ℕ} {alg : Algorithm P E}
  {shards : Finset (Fin config.shardCount)}

/-- The results of single checks that are all allowed. -/
def granted (allowances : List Allowance) : List (Except ArithmeticOverflow Decision) :=
  allowances.map fun allowance => .ok (.allowed allowance)

/-- What the single checks do when a batch is denied with this outcome, from an index on. -/
def DeniedAlike (index : ℕ) (results : List (Except ArithmeticOverflow Decision)) (outcome : BatchOutcome) : Prop :=
  ∃ before decision, outcome.deniedIndex = some (index + before.length) ∧
    results.take (before.length + 1) = granted before ++ [.ok decision] ∧ outcome.SameKind decision

/-- One more allowed check before the denial. -/
theorem DeniedAlike.cons {index : ℕ} {results : List (Except ArithmeticOverflow Decision)} {outcome : BatchOutcome}
    (h : DeniedAlike (index + 1) results outcome) (allowance : Allowance) :
    DeniedAlike index (.ok (.allowed allowance) :: results) outcome := by
  obtain ⟨before, decision, hindex, htake, hkind⟩ := h
  refine ⟨allowance :: before, decision, ?_, ?_, hkind⟩
  · rw [hindex, List.length_cons]
    congr 1
    omega
  · rw [List.length_cons, List.take_succ_cons, htake]
    rfl

theorem keys_update_put (i j : Fin config.shardCount) (key : CounterKey) (entry : StoredEntry E) :
    (Function.update w i ((w i).put key entry) j).entries.keys =
      if j = i then insert key (w i).entries.keys else (w j).entries.keys := by
  by_cases hj : j = i
  · subst hj
    rw [Function.update_self, if_pos rfl]
    exact Finmap.keys_insert _ _ _
  · rw [Function.update_of_ne hj, if_neg hj]

/-- **The single checks follow the scan.** `w` is the store after the checks scanned so far:
`present` and `used` are about the store before them, and `pending` counts what they inserted. -/
theorem each_of_scan (alg : Algorithm P E) (size : ℕ) (present : CounterKey → Bool)
    (used : Fin config.shardCount → ℕ) (full : Fin config.shardCount → Denial) (hfull : ∀ i, ∃ after, full i = .storageCapacity after) :
    ∀ (rest : List (Check P × Verdict E)) (index : ℕ) (pending : Fin config.shardCount → ℕ)
      (w : RefStore config E), Settled shards now w → Within shards now w →
      (∀ p ∈ rest, p.1.shard config ∈ shards) → (rest.map fun p => p.1.counterKey).Nodup →
      (∀ p ∈ rest, alg.evaluate p.1 now (w.entry p.1) = .ok p.2) →
      (∀ p ∈ rest, p.1.counterKey ∈ (w (p.1.shard config)).entries.keys ↔ present p.1.counterKey = true) →
      (∀ i, (w i).entries.keys.card = used i + pending i) →
      (scan config size present used full index pending rest = none →
        Machine.outputs (check alg now) w (rest.map Prod.fst) = granted (allowances rest) ∧
        Machine.final (check alg now) w (rest.map Prod.fst) = w.putAll rest) ∧
      ∀ outcome, scan config size present used full index pending rest = some outcome →
        DeniedAlike index (Machine.outputs (check alg now) w (rest.map Prod.fst)) outcome := by
  intro rest
  induction rest with
  | nil =>
    intro index pending w _ _ _ _ _ _ _
    refine ⟨fun _ => ⟨rfl, rfl⟩, ?_⟩
    intro outcome h
    cases h
  | cons p rest ih =>
    intro index pending w hsettled hwithin hshards hnodup hverdicts hpresent hcard
    obtain ⟨c, verdict⟩ := p
    rw [List.forall_mem_cons] at hshards hverdicts hpresent
    rw [List.map_cons, List.nodup_cons] at hnodup
    have hcheck := @check_settled _ _ _ _ w now alg shards hsettled c hshards.1
    rw [hverdicts.1] at hcheck
    rw [List.map_cons, Machine.outputs_cons, Machine.final_cons]
    cases verdict with
    | denied denial =>
      simp only at hcheck
      obtain ⟨hkind, hindex⟩ := sameKind_quotaExceeded c.quotaMode index size denial
      refine ⟨(fun h => by cases h), ?_⟩
      intro outcome h
      cases h
      refine ⟨[], _, hindex, ?_, hkind⟩
      rw [hcheck]
      rfl
    | allowed entry allowance =>
      simp only at hcheck
      have hverdict : alg.evaluate c now (((w (c.shard config)).advance now).entries.lookup c.counterKey) =
          .ok (.allowed entry allowance) := by
        rw [hsettled _ hshards.1]
        exact hverdicts.1
      have hexpires := hwithin.verdict hshards.1 hverdict
      -- the other checks of the batch have other keys, so they see the same store
      have hother : ∀ q ∈ rest, q.1.counterKey ≠ c.counterKey := by
        intro q hq heq
        exact hnodup.1 (List.mem_map.2 ⟨q, hq, heq⟩)
      set w' : RefStore config E := Function.update w (c.shard config) ((w (c.shard config)).put c.counterKey entry) with hw'
      have hverdicts' : ∀ q ∈ rest, alg.evaluate q.1 now (w'.entry q.1) = .ok q.2 := by
        intro q hq
        have hentry : w'.entry q.1 = w.entry q.1 := lookup_update_put (hother q hq) entry _
        rw [hentry]
        exact hverdicts.2 q hq
      have hpresent' : ∀ q ∈ rest, q.1.counterKey ∈ (w' (q.1.shard config)).entries.keys ↔
          present q.1.counterKey = true := by
        intro q hq
        rw [← hpresent.2 q hq, Finmap.mem_keys_iff, Finmap.mem_keys_iff, hw',
          lookup_update_put (hother q hq) entry]
      have hnext : ∀ pending' : Fin config.shardCount → ℕ, (∀ i, (w' i).entries.keys.card = used i + pending' i) → _ :=
        fun pending' hcard' => ih (index + 1) pending' w' (hsettled.update_put hexpires.1)
          (hwithin.update_put hexpires.2) hshards.2 hnodup.2 hverdicts' hpresent' hcard'
      -- a key that is stored takes no slot, so neither path looks at the room
      by_cases hmem : c.counterKey ∈ (w (c.shard config)).entries.keys
      · have hfits : ¬ (c.counterKey ∉ (w (c.shard config)).entries.keys ∧
            config.shardCapacity (c.shard config) ≤ (w (c.shard config)).entries.keys.card) := fun h => h.1 hmem
        rw [if_neg hfits] at hcheck
        have hcard' : ∀ i, (w' i).entries.keys.card = used i + pending i := by
          intro i
          rw [hw', keys_update_put]
          split
          · rename_i hi
            rw [Finset.insert_eq_of_mem hmem, ← hi]
            exact hcard i
          · exact hcard i
        obtain ⟨hnone, hsome⟩ := hnext pending hcard'
        unfold scan
        simp only [if_pos (hpresent.1.1 hmem)]
        rw [hcheck]
        refine ⟨?_, ?_⟩
        · intro h
          obtain ⟨houtputs, hfinal⟩ := hnone h
          exact ⟨by rw [houtputs]; rfl, hfinal⟩
        · intro outcome h
          exact (hsome outcome h).cons allowance
      · have habsent : ¬ present c.counterKey = true := fun h => hmem (hpresent.1.2 h)
        unfold scan
        simp only [if_neg habsent]
        -- a new key: the scan counts what the single checks have inserted by now
        by_cases hroom : config.shardCapacity (c.shard config) ≤ used (c.shard config) + pending (c.shard config)
        · rw [if_pos ⟨hmem, by rw [hcard]; exact hroom⟩] at hcheck
          simp only [if_pos hroom]
          refine ⟨(fun h => by cases h), ?_⟩
          intro outcome h
          cases h
          obtain ⟨after, hafter⟩ := hfull (c.shard config)
          refine ⟨[], .denied ((w (c.shard config)).full now), rfl, ?_, ?_⟩
          · rw [hcheck]
            rfl
          · rw [hafter]
            trivial
        · rw [if_neg fun h => hroom (by rw [← hcard]; exact h.2)] at hcheck
          simp only [if_neg hroom]
          have hcard' : ∀ i, (w' i).entries.keys.card =
              used i + Function.update pending (c.shard config) (pending (c.shard config) + 1) i := by
            intro i
            rw [hw', keys_update_put]
            split
            · rename_i hi
              rw [hi, Function.update_self, Finset.card_insert_of_notMem hmem, hcard]
              omega
            · rename_i hi
              rw [Function.update_of_ne hi]
              exact hcard i
          obtain ⟨hnone, hsome⟩ := hnext _ hcard'
          rw [hcheck]
          refine ⟨?_, ?_⟩
          · intro h
            obtain ⟨houtputs, hfinal⟩ := hnone h
            exact ⟨by rw [houtputs]; rfl, hfinal⟩
          · intro outcome h
            exact (hsome outcome h).cons allowance

/-- Single checks that are all allowed leave the keys they were made for, in shards that hold no more
than their capacity. -/
theorem each_keys : ∀ (checks : List (Check P)) (w : RefStore config E), Settled shards now w → Within shards now w →
    (∀ c ∈ checks, c.shard config ∈ shards) →
    (∀ i, (w i).entries.keys.card ≤ config.shardCapacity i) →
    (∀ r ∈ Machine.outputs (check alg now) w checks, ∃ allowance, r = .ok (.allowed allowance)) →
    (∀ i, (w i).entries.keys ⊆ (Machine.final (check alg now) w checks i).entries.keys) ∧
      (∀ c ∈ checks, c.counterKey ∈ (Machine.final (check alg now) w checks (c.shard config)).entries.keys) ∧
      ∀ i, (Machine.final (check alg now) w checks i).entries.keys.card ≤ config.shardCapacity i := by
  intro checks
  induction checks with
  | nil =>
    intro w _ _ _ hcard _
    exact ⟨fun i => subset_rfl, (fun c hc => by cases hc), hcard⟩
  | cons c rest ih =>
    intro w hsettled hwithin hshards hcard hallowed
    rw [List.forall_mem_cons] at hshards
    rw [Machine.outputs_cons, List.forall_mem_cons] at hallowed
    rw [Machine.final_cons]
    have hcheck := @check_settled _ _ _ _ w now alg shards hsettled c hshards.1
    obtain ⟨⟨allowance, hfirst⟩, hrest⟩ := hallowed
    cases hverdict : alg.evaluate c now (w.entry c) with
    | error e =>
      rw [hverdict] at hcheck
      rw [hcheck] at hfirst
      cases hfirst
    | ok verdict =>
      cases verdict with
      | denied d =>
        rw [hverdict] at hcheck
        rw [hcheck] at hfirst
        -- a quota denial is not allowed, in either mode
        unfold Decision.quotaExceeded at hfirst
        simp only [Except.ok.injEq] at hfirst
        split at hfirst
        · cases hfirst
        · cases hfirst
      | allowed entry a =>
        rw [hverdict] at hcheck
        simp only at hcheck
        split at hcheck
        · rw [hcheck] at hfirst
          cases hfirst
        · rename_i hroom
          have hexpires := hwithin.verdict hshards.1 (by rw [hsettled _ hshards.1]; exact hverdict)
          rw [hcheck] at hrest ⊢
          simp only at hrest ⊢
          have hcard' : ∀ i, (Function.update w (c.shard config)
              ((w (c.shard config)).put c.counterKey entry) i).entries.keys.card ≤ config.shardCapacity i := by
            intro i
            rw [keys_update_put]
            split
            · rename_i hi
              rw [hi]
              have hold := hcard (c.shard config)
              by_cases hmem : c.counterKey ∈ (w (c.shard config)).entries.keys
              · rw [Finset.insert_eq_of_mem hmem]
                exact hold
              · -- a new key was let in, so there was room
                have hlt : ¬ config.shardCapacity (c.shard config) ≤ (w (c.shard config)).entries.keys.card :=
                  fun h => hroom ⟨hmem, h⟩
                rw [Finset.card_insert_of_notMem hmem]
                omega
            · exact hcard i
          obtain ⟨hkeys, hchecks, hfinal⟩ := ih _ (hsettled.update_put hexpires.1)
            (hwithin.update_put hexpires.2) hshards.2 hcard' hrest
          have hgrow : ∀ i, (w i).entries.keys ⊆ (Function.update w (c.shard config)
              ((w (c.shard config)).put c.counterKey entry) i).entries.keys := by
            intro i
            rw [keys_update_put]
            split
            · rename_i hi
              rw [hi]
              exact Finset.subset_insert _ _
            · exact subset_rfl
          refine ⟨fun i => (hgrow i).trans (hkeys i), ?_, hfinal⟩
          rw [List.forall_mem_cons]
          refine ⟨hkeys _ ?_, hchecks⟩
          rw [keys_update_put, if_pos rfl]
          exact Finset.mem_insert_self _ _

/-- A batch whose single checks are all allowed fits into the shards. -/
theorem overfull_of_each {checks : List (Check P)} (hsettled : Settled shards now v) (hwithin : Within shards now v)
    (hshards : ∀ c ∈ checks, c.shard config ∈ shards) (hnodup : (checks.map Check.counterKey).Nodup)
    (hcard : ∀ i, (v i).entries.keys.card ≤ config.shardCapacity i)
    (hallowed : ∀ r ∈ Machine.outputs (check alg now) v checks, ∃ allowance, r = .ok (.allowed allowance)) :
    overfull config checks = none := by
  obtain ⟨-, hchecks, hfinal⟩ := each_keys checks v hsettled hwithin hshards hcard hallowed
  have hdemand : ∀ i, demand config checks i ≤ config.shardCapacity i := by
    intro i
    have hkeys : ((checks.filter fun c => decide (c.shard config = i)).map Check.counterKey).toFinset ⊆
        (Machine.final (check alg now) v checks i).entries.keys := by
      intro key hkey
      rw [List.mem_toFinset, List.mem_map] at hkey
      obtain ⟨c, hc, rfl⟩ := hkey
      rw [List.mem_filter, decide_eq_true_eq] at hc
      rw [← hc.2]
      exact hchecks c hc.1
    -- the keys of a batch are distinct, so its demand on a shard is a number of keys
    have hcount : demand config checks i =
        ((checks.filter fun c => decide (c.shard config = i)).map Check.counterKey).toFinset.card := by
      have hsub : ((checks.filter fun c => decide (c.shard config = i)).map Check.counterKey).Nodup :=
        hnodup.sublist (List.filter_sublist.map _)
      rw [List.toFinset_card_of_nodup hsub, List.length_map]
      unfold demand
      rw [List.count_eq_countP, List.countP_map, List.countP_eq_length_filter]
      congr 1
    rw [hcount]
    exact (Finset.card_le_card hkeys).trans (hfinal i)
  unfold overfull
  rw [Option.map_eq_none_iff, List.find?_eq_none]
  intro i _
  simpa using hdemand i

/-- A batch agrees with single checks that gave these results and this store. -/
structure AsEach (checks : List (Check P)) (batch : Except GcraBatchError BatchDecision × RefStore config E)
    (results : List (Except ArithmeticOverflow Decision)) (final : RefStore config E) : Prop where
  allowed_iff : (∃ allowances, batch.1 = .ok ⟨.allowed allowances⟩) ↔
    validateBatch checks config.maxBatchSize = .ok () ∧ ∀ r ∈ results, ∃ allowance, r = .ok (.allowed allowance)
  allowed : ∀ allowances, batch.1 = .ok ⟨.allowed allowances⟩ → results = granted allowances ∧ final = batch.2
  denied : ∀ outcome, batch.1 = .ok ⟨outcome⟩ → outcome.deniedIndex ≠ none → DeniedAlike 0 results outcome

/-- A batch that fails agrees with single checks that are not all allowed. -/
theorem AsEach.of_error {checks : List (Check P)} {error : GcraBatchError} {batch : RefStore config E}
    {results : List (Except ArithmeticOverflow Decision)} {final : RefStore config E}
    (hnot : ¬ (validateBatch checks config.maxBatchSize = .ok () ∧
      ∀ r ∈ results, ∃ allowance, r = .ok (.allowed allowance))) :
    AsEach checks (.error error, batch) results final := by
  refine ⟨⟨?_, fun h => absurd h hnot⟩, ?_, ?_⟩
  · rintro ⟨allowances, h⟩
    cases h
  · intro allowances h
    cases h
  · intro outcome h
    cases h

theorem DeniedAlike.not_allowed {index : ℕ} {results : List (Except ArithmeticOverflow Decision)}
    {outcome : BatchOutcome} (h : DeniedAlike index results outcome) :
    ¬ ∀ r ∈ results, ∃ allowance, r = .ok (.allowed allowance) := by
  obtain ⟨before, decision, hindex, htake, hkind⟩ := h
  intro hall
  have hmem : (.ok decision : Except ArithmeticOverflow Decision) ∈ results := by
    apply List.mem_of_mem_take (i := before.length + 1)
    rw [htake]
    exact List.mem_append_right _ (List.mem_singleton_self _)
  obtain ⟨allowance, heq⟩ := hall _ hmem
  cases heq
  cases outcome with
  | allowed a => cases hindex
  | denied i size denial =>
    cases denial with
    | quotaExceeded d => exact hkind
    | storageCapacity after => exact hkind
  | shadowDenied i size d => exact hkind

/-- **A batch on settled shards is its checks, one after another.** -/
theorem checkAll_each {checks : List (Check P)} (hsettled : Settled (touched config checks) now v)
    (hwithin : Within (touched config checks) now v) (hcard : ∀ i, (v i).entries.keys.card ≤ config.shardCapacity i)
    (hoverflow : (checkAll alg now checks v).1 ≠ .error .arithmeticOverflow) :
    AsEach checks (checkAll alg now checks v) (Machine.outputs (check alg now) v checks)
      (Machine.final (check alg now) v checks) := by
  have hshards : ∀ c ∈ checks, c.shard config ∈ touched config checks := fun c hc => mem_touched.2 ⟨c, hc, rfl⟩
  cases hvalid : validateBatch checks config.maxBatchSize with
  | error e =>
    have heq : checkAll alg now checks v = (.error (.store (.invalidBatch e)), v) := by
      unfold checkAll
      simp only [hvalid]
    rw [heq]
    refine AsEach.of_error ?_
    rintro ⟨h, -⟩
    rw [hvalid] at h
    cases h
  | ok u =>
    obtain ⟨-, hnodup⟩ := validateBatch_ok hvalid
    cases hrouted : overfull config checks with
    | some e =>
      have heq : checkAll alg now checks v = (.error (.store e), v) := by
        unfold checkAll
        simp only [hvalid, hrouted]
      rw [heq]
      refine AsEach.of_error ?_
      rintro ⟨-, hallowed⟩
      rw [overfull_of_each hsettled hwithin hshards hnodup hcard hallowed] at hrouted
      cases hrouted
    | none =>
      have hadvance : v.advance (touched config checks) now = v := hsettled.advance subset_rfl
      cases hverdicts : evaluateAll alg now v.entry checks with
      | error e =>
        refine absurd ?_ hoverflow
        unfold checkAll
        simp only [hvalid, hrouted, hadvance, hverdicts]
      | ok verdicts =>
        obtain ⟨hfst, hall⟩ := evaluateAll_ok hverdicts
        have hnodup' : (verdicts.map fun p => p.1.counterKey).Nodup := by
          rw [← hfst, List.map_map] at hnodup
          exact hnodup
        have hshards' : ∀ p ∈ verdicts, p.1.shard config ∈ touched config checks := by
          intro p hp
          refine hshards _ ?_
          rw [← hfst]
          exact List.mem_map_of_mem hp
        -- the scan of the batch starts where the single checks start: nothing is inserted yet
        obtain ⟨hnone, hsome⟩ := each_of_scan alg checks.length
          (fun key => decide (key ∈ (v (config.shardIndex key)).entries.keys))
          (fun i => (v i).entries.keys.card) (fun i => (v i).full now) (fun i => ⟨_, rfl⟩)
          verdicts 0 (fun _ => 0) v hsettled hwithin hshards' hnodup' hall
          (fun p _ => by rw [decide_eq_true_eq]; rfl) (fun i => rfl)
        rw [hfst] at hnone hsome
        cases hscan : scan config checks.length
            (fun key => decide (key ∈ (v (config.shardIndex key)).entries.keys))
            (fun i => (v i).entries.keys.card) (fun i => (v i).full now) 0 (fun _ => 0) verdicts with
        | none =>
          have heq : checkAll alg now checks v = (.ok ⟨.allowed (allowances verdicts)⟩, v.putAll verdicts) := by
            unfold checkAll
            simp only [hvalid, hrouted, hadvance, hverdicts, hscan]
          obtain ⟨houtputs, hfinal⟩ := hnone hscan
          rw [heq, houtputs, hfinal]
          refine ⟨⟨fun _ => ⟨hvalid, ?_⟩, fun _ => ⟨_, rfl⟩⟩, ?_, ?_⟩
          · intro r hr
            obtain ⟨allowance, -, rfl⟩ := List.mem_map.1 hr
            exact ⟨allowance, rfl⟩
          · intro allowances h
            cases h
            exact ⟨rfl, rfl⟩
          · intro outcome h hdenied
            cases h
            exact absurd rfl hdenied
        | some outcome =>
          have heq : checkAll alg now checks v = (.ok ⟨outcome⟩, v) := by
            unfold checkAll
            simp only [hvalid, hrouted, hadvance, hverdicts, hscan]
          have hdenied := hsome outcome hscan
          rw [heq]
          refine ⟨⟨?_, fun h => absurd h.2 hdenied.not_allowed⟩, ?_, ?_⟩
          · rintro ⟨allowances, h⟩
            cases h
            exact absurd hscan scan_ne_allowed
          · intro allowances h
            cases h
            exact absurd hscan scan_ne_allowed
          · intro outcome' h _
            cases h
            exact hdenied

end RefStore

end Runlimit
