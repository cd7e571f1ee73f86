import Runlimit.Proof.Shard
import Runlimit.Proof.Batch

/-!
# The bounded store refines the reference store

`Bounded.check` and `Bounded.checkAll` are the two operations both memory stores perform,
over any quota algorithm, without locks and without the ways to unwind. They remove a
bounded number of expired entries, so a shard may still hold entries the reference store has
deleted. Main results:

* `check_refines`, `checkAll_refines`: every answer is the answer of the reference store, and
  the meaning of the state follows it;
* `check_inv`, `checkAll_inv`: the representation invariant is kept.

The reason is a count: each check of a batch brings a removal budget of at least one, so a
shard that is not clean afterwards has room for every check routed to it.
-/

namespace Runlimit

open Gcra (ArithmeticOverflow)

namespace Bounded

variable {P E : Type} [RateLimitPolicy P] {config : MemoryStoreConfig}

/-- The shards of a store, without their mutexes. -/
abbrev Data (config : MemoryStoreConfig) (E : Type) := Fin config.shardCount → Shard E

structure Inv (data : Data config E) : Prop where
  shard : ∀ i, (data i).Inv
  capacity_eq : ∀ i, (data i).capacity = config.shardCapacity i

/-- What the shards mean. -/
def abs (data : Data config E) : RefStore config E := fun i => (data i).abs

def observed (data : Data config E) : Fin config.shardCount → ℕ := fun i =>
  (data i).latestObservedMillis

/-! ## Operations -/

/-- The live entry of a check's key. -/
def entry (now : ℕ) (data : Data config E) (check : Check P) : Option (StoredEntry E) :=
  (data (check.shard config)).live check.counterKey now

/-- Bounded removal on the touched shards. -/
def cleanup (budget : Fin config.shardCount → ℕ) (touched : Finset (Fin config.shardCount)) (now : ℕ)
    (data : Data config E) : Data config E :=
  fun i => if i ∈ touched then ((data i).recordObservedMillis now).prune now (budget i) else data i

def putAll : List (Check P × Verdict E) → Data config E → Data config E
  | [], data => data
  | (_, .denied _) :: rest, data => putAll rest data
  | (check, .allowed entry _) :: rest, data =>
    putAll rest (Function.update data (check.shard config)
      ((data (check.shard config)).put check.counterKey entry))

/-- One check: evaluate, remove, then deny or store. -/
def check (alg : Algorithm P E) (now : ℕ) (check : Check P) (data : Data config E) :
    Except ArithmeticOverflow Decision × Data config E :=
  let i := check.shard config
  match alg.evaluate check now (entry now data check) with
  | .error error => (.error error, data)
  | .ok verdict =>
    let data := cleanup (fun _ => config.maxExpiredRemovalsPerCheck) {i} now data
    match verdict with
    | .denied denial => (.ok (.quotaExceeded check.quotaMode denial), data)
    | .allowed entry allowance =>
      if check.counterKey ∉ (data i).entries.keys ∧ (data i).capacity ≤ (data i).used then
        (.ok (.denied ((data i).abs.full now)), data)
      else
        (.ok (.allowed allowance), Function.update data i ((data i).put check.counterKey entry))

/-- The removal budget of a batch on each shard. -/
def budget (config : MemoryStoreConfig) (checks : List (Check P)) (i : Fin config.shardCount) : ℕ :=
  saturatingMul config.maxExpiredRemovalsPerCheck (demand config checks i)

/-- The scan of a batch over shards that have been cleaned up. -/
def firstDenial (batchSize now : ℕ) (data : Data config E) (verdicts : List (Check P × Verdict E)) :
    Option BatchOutcome :=
  scan config batchSize (fun key => decide (key ∈ (data (config.shardIndex key)).entries.keys))
    (fun i => (data i).used) (fun i => (data i).abs.full now) 0 (fun _ => 0) verdicts

/-- An atomic batch. -/
def checkAll (alg : Algorithm P E) (now : ℕ) (checks : List (Check P)) (data : Data config E) :
    Except GcraBatchError BatchDecision × Data config E :=
  match validateBatch checks config.maxBatchSize with
  | .error error => (.error (.store (.invalidBatch error)), data)
  | .ok () =>
    match overfull config checks with
    | some error => (.error (.store error), data)
    | none =>
      match evaluateAll alg now (entry now data) checks with
      | .error _ => (.error .arithmeticOverflow, data)
      | .ok verdicts =>
        let data := cleanup (budget config checks) (touched config checks) now data
        match firstDenial checks.length now data verdicts with
        | some outcome => (.ok ⟨outcome⟩, data)
        | none => (.ok ⟨.allowed (allowances verdicts)⟩, putAll verdicts data)

/-! ## Cleanup -/

section Cleanup

variable {data : Data config E} {now : ℕ} {touched : Finset (Fin config.shardCount)}
  {budget : Fin config.shardCount → ℕ}

/-- Bounded removal keeps the invariant. -/
theorem cleanup_inv (hd : Inv data) (hmax : now ≤ maxMillis)
    (hnow : ∀ i ∈ touched, observed data i ≤ now) : Inv (cleanup budget touched now data) where
  shard i := by
    unfold cleanup
    split
    · rename_i hi
      exact (Shard.prune_spec now _ ((hd.shard i).record (hnow i hi) hmax)).1
    · exact hd.shard i
  capacity_eq i := by
    unfold cleanup
    split
    · rename_i hi
      have hp := (Shard.prune_spec now (budget i) ((hd.shard i).record (hnow i hi) hmax)).2
      exact hp.capacity_eq.trans (hd.capacity_eq i)
    · exact hd.capacity_eq i

/-- And leaves its time in the shards it touches. -/
theorem cleanup_observed (hd : Inv data) (hmax : now ≤ maxMillis)
    (hnow : ∀ i ∈ touched, observed data i ≤ now) {i : Fin config.shardCount} (hi : i ∈ touched) :
    observed (cleanup budget touched now data) i = now := by
  have hp := (Shard.prune_spec now (budget i) ((hd.shard i).record (hnow i hi) hmax)).2
  unfold observed cleanup
  rw [if_pos hi]
  exact hp.observed_eq

/-- Bounded removal means full removal. -/
theorem abs_cleanup (budget : Fin config.shardCount → ℕ) (hd : Inv data) (hmax : now ≤ maxMillis)
    (hnow : ∀ i ∈ touched, observed data i ≤ now) :
    abs (cleanup budget touched now data) = (abs data).advance touched now := by
  funext i
  unfold abs cleanup RefStore.advance
  split
  · rename_i hi
    exact Shard.abs_prune (hd.shard i) (hnow i hi) hmax
  · rfl

/-- The entry the reference store finds is the live one. -/
theorem entry_advance {check : Check P} (hi : check.shard config ∈ touched)
    (hnow : ∀ i ∈ touched, observed data i ≤ now) :
    ((abs data).advance touched now).entry check = entry now data check := by
  unfold RefStore.entry RefStore.advance
  rw [if_pos hi]
  exact Shard.lookup_advance_abs (hnow _ hi) _

/-- A touched shard is clean after cleanup, or has its whole budget free. -/
theorem cleanup_clean_or_slack (budget : Fin config.shardCount → ℕ) (hd : Inv data) (hmax : now ≤ maxMillis)
    (hnow : ∀ i ∈ touched, observed data i ≤ now) {i : Fin config.shardCount} (hi : i ∈ touched) :
    (cleanup budget touched now data i).Clean now ∨
      (cleanup budget touched now data i).used + budget i ≤ config.shardCapacity i := by
  have hs := (hd.shard i).record (hnow i hi) hmax
  have hp := (Shard.prune_spec now (budget i) hs).2
  unfold cleanup
  rw [if_pos hi]
  rcases Shard.prune_clean_or_slack hs now (budget i) with h | h
  · exact Or.inl h
  · right
    rw [hp.capacity_eq] at h
    exact h.trans (hd.capacity_eq i).le

/-- Cleanup leaves the live entries alone. -/
theorem entry_cleanup (budget : Fin config.shardCount → ℕ) (hd : Inv data) (hmax : now ≤ maxMillis)
    (hnow : ∀ i ∈ touched, observed data i ≤ now) (c : Check P) :
    entry now (cleanup budget touched now data) c = entry now data c := by
  unfold entry cleanup
  split
  · rename_i hi
    exact Shard.live_prune ((hd.shard _).record (hnow _ hi) hmax) c.counterKey
  · rfl

/-- Removal on one shard is an update of it. -/
theorem cleanup_singleton (i : Fin config.shardCount) :
    cleanup budget {i} now data =
      Function.update data i (((data i).recordObservedMillis now).prune now (budget i)) := by
  funext j
  unfold cleanup
  by_cases hj : j = i
  · subst hj
    rw [if_pos (Finset.mem_singleton_self j), Function.update_self]
  · rw [if_neg (by rw [Finset.mem_singleton]; exact hj), Function.update_of_ne hj]

/-- The live entries a verdict starts from are within the portable window. -/
theorem entry_bound (hd : Inv data) {check : Check P} (hnow : observed data (check.shard config) ≤ now) :
    ∀ e ∈ entry now data check, now < e.expiresAtMillis ∧ e.expiresAtMillis ≤ now + maxWindowMillis := by
  intro e he
  obtain ⟨hl, hlt⟩ := Shard.live_eq_some.1 he
  have := (hd.shard _).expires_le _ _ hl
  unfold observed at hnow
  exact ⟨hlt, by omega⟩

end Cleanup

/-! ## One check -/

section Single

variable {alg : Algorithm P E} {data : Data config E} {now : ℕ} {c : Check P}

/-- Storing one entry keeps the invariant where there is room. -/
theorem Inv.update_put (hd : Inv data) {i : Fin config.shardCount} {key : CounterKey}
    {entry : StoredEntry E} (hexp : entry.expiresAtMillis ≤ observed data i + maxWindowMillis)
    (hroom : key ∈ (data i).entries.keys ∨ (data i).used < (data i).capacity) :
    Inv (Function.update data i ((data i).put key entry)) where
  shard j := by
    by_cases h : j = i
    · subst h
      rw [Function.update_self]
      exact (hd.shard j).put hexp hroom
    · rw [Function.update_of_ne h]
      exact hd.shard j
  capacity_eq j := by
    by_cases h : j = i
    · subst h
      rw [Function.update_self]
      exact hd.capacity_eq j
    · rw [Function.update_of_ne h]
      exact hd.capacity_eq j

/-- Replacing a shard replaces what it means. -/
theorem abs_update (i : Fin config.shardCount) (s : Shard E) :
    abs (Function.update data i s) = Function.update (abs data) i s.abs := by
  funext j
  unfold abs
  by_cases h : j = i
  · subst h; rw [Function.update_self, Function.update_self]
  · rw [Function.update_of_ne h, Function.update_of_ne h]

theorem mem_touched_singleton (hnow : observed data (c.shard config) ≤ now) :
    ∀ i ∈ ({c.shard config} : Finset (Fin config.shardCount)), observed data i ≤ now := by
  intro i hi
  rw [Finset.mem_singleton] at hi
  rw [hi]
  exact hnow

/-- **A single check keeps the representation invariant.** -/
theorem check_inv (alg : Algorithm P E) (hd : Inv data) (hmax : now ≤ maxMillis)
    (hnow : observed data (c.shard config) ≤ now) : Inv (check alg now c data).2 := by
  have htouched := mem_touched_singleton hnow
  have hclean : Inv (cleanup (fun _ => config.maxExpiredRemovalsPerCheck) {c.shard config} now data) :=
    cleanup_inv hd hmax htouched
  unfold check
  cases hev : alg.evaluate c now (entry now data c) with
  | error e => exact hd
  | ok verdict =>
    cases verdict with
    | denied d => exact hclean
    | allowed e a =>
      simp only
      split
      · exact hclean
      · rename_i hroom
        -- there is room, and what the algorithm stores is within the window
        obtain ⟨-, hexp⟩ := alg.expires_bound hev (entry_bound hd hnow)
        refine hclean.update_put ?_ ?_
        · rw [cleanup_observed hd hmax htouched (Finset.mem_singleton_self _)]
          exact hexp
        · rw [not_and_or, not_not, Nat.not_le] at hroom
          exact hroom

/-- **A single check answers like the reference store.** -/
theorem check_refines (alg : Algorithm P E) (hd : Inv data) (hmax : now ≤ maxMillis)
    (hnow : observed data (c.shard config) ≤ now) :
    RefStore.check alg now c (abs data) = ((check alg now c data).1, abs (check alg now c data).2) := by
  have htouched := mem_touched_singleton hnow
  have hself : c.shard config ∈ ({c.shard config} : Finset (Fin config.shardCount)) :=
    Finset.mem_singleton_self _
  set cleaned := cleanup (fun _ => config.maxExpiredRemovalsPerCheck) {c.shard config} now data
    with hcleaned
  have hinv : Inv cleaned := cleanup_inv hd hmax htouched
  have habs : (abs data).advance {c.shard config} now = abs cleaned := (abs_cleanup _ hd hmax htouched).symm
  have hobs : observed cleaned (c.shard config) = now := cleanup_observed hd hmax htouched hself
  have hentry : (abs cleaned).entry c = entry now data c := by
    rw [← habs]
    exact entry_advance hself htouched
  unfold RefStore.check check
  simp only [habs, hentry]
  cases hev : alg.evaluate c now (entry now data c) with
  | error e => rfl
  | ok verdict =>
    cases verdict with
    | denied d => rfl
    | allowed e a =>
      obtain ⟨hlive, -⟩ := alg.expires_bound hev (entry_bound hd hnow)
      simp only [← hcleaned]
      -- the two capacity tests agree: they see the same entries, or both see room
      have hcap : (c.counterKey ∉ (abs cleaned (c.shard config)).entries.keys ∧
            config.shardCapacity (c.shard config) ≤ (abs cleaned (c.shard config)).entries.keys.card) ↔
          (c.counterKey ∉ (cleaned (c.shard config)).entries.keys ∧
            (cleaned (c.shard config)).capacity ≤ (cleaned (c.shard config)).used) := by
        rw [hinv.capacity_eq]
        rcases cleanup_clean_or_slack (fun _ => config.maxExpiredRemovalsPerCheck) hd hmax
          htouched hself with h | h
        · have hclean : (cleaned (c.shard config)).Clean (cleaned (c.shard config)).latestObservedMillis := by
            unfold observed at hobs
            rw [hobs]
            exact h
          unfold abs
          rw [hclean.abs_entries]
          rfl
        · have hpos := config.removals_pos
          have hle : (abs cleaned (c.shard config)).entries.keys.card ≤ (cleaned (c.shard config)).used :=
            Shard.card_abs_le
          rw [← hcleaned] at h
          constructor
          · rintro ⟨-, h'⟩; omega
          · rintro ⟨-, h'⟩; omega
      by_cases hfull : c.counterKey ∉ (cleaned (c.shard config)).entries.keys ∧
          (cleaned (c.shard config)).capacity ≤ (cleaned (c.shard config)).used
      · rw [if_pos hfull, if_pos (hcap.2 hfull)]
        rfl
      · rw [if_neg hfull, if_neg (fun h => hfull (hcap.1 h))]
        rw [abs_update, Shard.abs_put (by unfold observed at hobs; rw [hobs]; exact hlive)]
        rfl

end Single

/-! ## Atomic batches -/

section Batch

variable {alg : Algorithm P E} {data : Data config E} {now : ℕ} {checks : List (Check P)}

/-- The budget of a batch covers the checks routed to each shard. -/
theorem demand_le_budget (h : overfull config checks = none) (i : Fin config.shardCount) :
    demand config checks i ≤ budget config checks i := by
  have hle := (overfull_eq_none h i).trans ((shardCapacity_le config i).trans config.maxKeys_le)
  unfold budget saturatingMul
  exact le_min (Nat.le_mul_of_pos_left _ config.removals_pos) hle

/-- A verdict that stores an entry stores a live one, within the portable window. -/
def Fits (now : ℕ) (verdicts : List (Check P × Verdict E)) : Prop :=
  ∀ p ∈ verdicts, ∀ entry allowance, p.2 = .allowed entry allowance →
    now < entry.expiresAtMillis ∧ entry.expiresAtMillis ≤ now + maxWindowMillis

/-- The verdicts of a batch store live entries only. -/
theorem evaluateAll_fits (hd : Inv data) (hnow : ∀ i ∈ touched config checks, observed data i ≤ now)
    {verdicts : List (Check P × Verdict E)}
    (h : evaluateAll alg now (entry now data) checks = .ok verdicts) : Fits now verdicts := by
  obtain ⟨hfst, hall⟩ := evaluateAll_ok h
  intro p hp e a hv
  have hmem : p.1 ∈ checks := by
    rw [← hfst]
    exact List.mem_map_of_mem hp
  have hev := hall p hp
  rw [hv] at hev
  exact alg.expires_bound hev (entry_bound hd (hnow _ (mem_touched.2 ⟨p.1, hmem, rfl⟩)))

/-- The observed time of a shard does not depend on what is stored in it. -/
theorem observed_update_put (i j : Fin config.shardCount) (key : CounterKey) (e : StoredEntry E) :
    observed (Function.update data i ((data i).put key e)) j = observed data j := by
  unfold observed
  by_cases h : j = i
  · subst h; rw [Function.update_self]; rfl
  · rw [Function.update_of_ne h]

/-- Storing one key leaves the entries of the others alone. -/
theorem entry_update_put {i : Fin config.shardCount} {key : CounterKey} {e : StoredEntry E} {c : Check P}
    (h : c.counterKey ≠ key) :
    entry now (Function.update data i ((data i).put key e)) c = entry now data c := by
  unfold entry
  by_cases hi : c.shard config = i
  · rw [hi, Function.update_self]
    unfold Shard.live
    rw [Shard.put_entries, Finmap.lookup_insert_if, if_neg h]
  · rw [Function.update_of_ne hi]

/-- Storing an allowed batch means storing it in the reference store. -/
theorem abs_putAll : ∀ {verdicts : List (Check P × Verdict E)} {data : Data config E},
    Fits now verdicts → (∀ p ∈ verdicts, observed data (p.1.shard config) = now) →
    abs (putAll verdicts data) = (abs data).putAll verdicts := by
  intro verdicts
  induction verdicts with
  | nil => intro data _ _; rfl
  | cons p rest ih =>
    intro data hfits hobs
    obtain ⟨c, v⟩ := p
    unfold Fits at hfits
    rw [List.forall_mem_cons] at hfits hobs
    cases v with
    | denied d => exact ih hfits.2 hobs.2
    | allowed e a =>
      unfold putAll RefStore.putAll
      have hlive := (hfits.1 e a rfl).1
      have hnow : (data (c.shard config)).latestObservedMillis = now := hobs.1
      rw [ih hfits.2 (fun p hp => by rw [observed_update_put]; exact hobs.2 p hp), abs_update,
        Shard.abs_put (by rw [hnow]; exact hlive)]
      rfl

/-- Storing an allowed batch keeps the invariant: the scan has counted a place for every new
key. `base` is the state the scan looked at, `data` what the first checks have made of it. -/
theorem putAll_inv {size : ℕ} {base : Data config E} {full : Fin config.shardCount → Denial} :
    ∀ {verdicts : List (Check P × Verdict E)} {data : Data config E} {index : ℕ}
      {pending : Fin config.shardCount → ℕ}, Inv data → Fits now verdicts →
      (∀ p ∈ verdicts, observed data (p.1.shard config) = now) →
      (verdicts.map fun p => p.1.counterKey).Nodup →
      (∀ i, (data i).used = (base i).used + pending i) →
      (∀ p ∈ verdicts, p.1.counterKey ∈ (data (p.1.shard config)).entries.keys ↔
        p.1.counterKey ∈ (base (p.1.shard config)).entries.keys) →
      scan config size (fun key => decide (key ∈ (base (config.shardIndex key)).entries.keys))
        (fun i => (base i).used) full index pending verdicts = none →
      Inv (putAll verdicts data) := by
  intro verdicts
  induction verdicts with
  | nil => intro data index pending hd _ _ _ _ _ _; exact hd
  | cons p rest ih =>
    intro data index pending hd hfits hobs hnodup hused hpresent hscan
    obtain ⟨c, v⟩ := p
    unfold Fits at hfits
    rw [List.forall_mem_cons] at hfits hobs hpresent
    rw [List.map_cons, List.nodup_cons] at hnodup
    cases v with
    | denied d => cases hscan
    | allowed e a =>
      unfold scan at hscan
      simp only [decide_eq_true_eq] at hscan
      set i := c.shard config with hi
      have hexp : e.expiresAtMillis ≤ observed data i + maxWindowMillis := by
        rw [hobs.1]
        exact (hfits.1 e a rfl).2
      have hobs' : ∀ p ∈ rest, observed (Function.update data i ((data i).put c.counterKey e))
          (p.1.shard config) = now := by
        intro p hp
        rw [observed_update_put]
        exact hobs.2 p hp
      -- storing this key leaves the presence of the later, different keys alone
      have hpresent' : ∀ p ∈ rest, p.1.counterKey ∈
          (Function.update data i ((data i).put c.counterKey e) (p.1.shard config)).entries.keys ↔
            p.1.counterKey ∈ (base (p.1.shard config)).entries.keys := by
        intro p hp
        rw [← hpresent.2 p hp]
        by_cases hpi : p.1.shard config = i
        · rw [hpi, Function.update_self, Shard.put_entries, Finmap.keys_insert, Finset.mem_insert]
          refine or_iff_right ?_
          intro heq
          refine hnodup.1 (List.mem_map.2 ⟨p, hp, heq⟩)
        · rw [Function.update_of_ne hpi]
      unfold putAll
      by_cases hin : c.counterKey ∈ (base i).entries.keys
      · rw [if_pos (by exact hin)] at hscan
        -- a key that was there takes no slot
        have hmem : c.counterKey ∈ (data i).entries.keys := hpresent.1.2 hin
        refine ih (hd.update_put hexp (Or.inl hmem)) hfits.2 hobs' hnodup.2 ?_ hpresent' hscan
        intro j
        rw [← hused j]
        by_cases hj : j = i
        · rw [hj, Function.update_self, Shard.used_put, if_pos hmem]
        · rw [Function.update_of_ne hj]
      · rw [if_neg (by exact hin)] at hscan
        have hmem : c.counterKey ∉ (data i).entries.keys := fun h => hin (hpresent.1.1 h)
        split at hscan
        · cases hscan
        · rename_i hroom
          -- a new key: what the scan counted as pending is what has been stored
          have hlt : (data i).used < (data i).capacity := by
            rw [hd.capacity_eq, hused i]
            omega
          refine ih (hd.update_put hexp (Or.inr hlt)) hfits.2 hobs' hnodup.2 ?_ hpresent' hscan
          intro j
          by_cases hj : j = i
          · rw [hj, Function.update_self, Function.update_self, Shard.used_put, if_neg hmem, hused i]
            omega
          · rw [Function.update_of_ne hj, Function.update_of_ne hj]
            exact hused j

/-- After cleanup, the bounded store and the reference store scan a batch alike. -/
theorem firstDenial_eq (hd : Inv data) (hmax : now ≤ maxMillis)
    (hnow : ∀ i ∈ touched config checks, observed data i ≤ now)
    (hrouted : overfull config checks = none) {verdicts : List (Check P × Verdict E)}
    (hfst : verdicts.map Prod.fst = checks) (size : ℕ) :
    firstDenial size now (cleanup (budget config checks) (touched config checks) now data) verdicts =
      scan config size
        (fun key => decide (key ∈ ((abs data).advance (touched config checks) now
          (config.shardIndex key)).entries.keys))
        (fun i => ((abs data).advance (touched config checks) now i).entries.keys.card)
        (fun i => ((abs data).advance (touched config checks) now i).full now) 0 (fun _ => 0) verdicts := by
  set cleaned := cleanup (budget config checks) (touched config checks) now data with hcleaned
  have hinv : Inv cleaned := cleanup_inv hd hmax hnow
  rw [← abs_cleanup (budget config checks) hd hmax hnow, ← hcleaned]
  unfold firstDenial
  refine scan_agree size verdicts 0 _ _ fun i => ?_
  have hdemand : routed config i verdicts = demand config checks i := by
    unfold routed demand
    rw [← hfst, List.map_map]
    rfl
  have hle : (abs cleaned i).entries.keys.card ≤ (cleaned i).used := Shard.card_abs_le
  unfold Agrees
  beta_reduce
  rw [hdemand]
  by_cases hi : i ∈ touched config checks
  · rcases cleanup_clean_or_slack (budget config checks) hd hmax hnow hi with h | h
    · have hobs : observed cleaned i = now := cleanup_observed hd hmax hnow hi
      have hclean : (cleaned i).Clean (cleaned i).latestObservedMillis := by
        unfold observed at hobs
        rw [hobs]
        exact h
      have hentries : (abs cleaned i).entries = (cleaned i).entries := hclean.abs_entries
      left
      refine ⟨?_, ?_, rfl⟩
      · rintro key rfl
        rw [hentries]
      · rw [hentries]
        rfl
    · -- not clean: the whole budget is free, and it covers the demand, so neither scan stops here
      have hbudget := demand_le_budget hrouted i
      rw [← hcleaned] at h
      right
      exact ⟨by omega, by omega⟩
  · -- a shard without a check of the batch
    have hzero : demand config checks i = 0 := by
      unfold demand
      rw [List.count_eq_zero]
      intro hmem
      exact hi (List.mem_toFinset.2 hmem)
    have hcap := (hinv.shard i).used_le
    rw [hinv.capacity_eq] at hcap
    right
    exact ⟨by omega, by omega⟩

/-- **A batch keeps the representation invariant.** -/
theorem checkAll_inv (alg : Algorithm P E) (hd : Inv data) (hmax : now ≤ maxMillis)
    (hnow : ∀ i ∈ touched config checks, observed data i ≤ now) :
    Inv (checkAll alg now checks data).2 := by
  unfold checkAll
  split
  · exact hd
  · rename_i hvalid
    split
    · exact hd
    · split
      · exact hd
      · rename_i verdicts hev
        have hclean : Inv (cleanup (budget config checks) (touched config checks) now data) :=
          cleanup_inv hd hmax hnow
        simp only
        split
        · exact hclean
        · rename_i hscan
          obtain ⟨hfst, -⟩ := evaluateAll_ok hev
          have hkeys : verdicts.map (fun p => p.1.counterKey) = checks.map Check.counterKey := by
            rw [← hfst, List.map_map]
            rfl
          refine putAll_inv hclean (evaluateAll_fits hd hnow hev) ?_ ?_ (fun i => rfl) (fun p hp => Iff.rfl)
            hscan
          · intro p hp
            refine cleanup_observed hd hmax hnow (mem_touched.2 ⟨p.1, ?_, rfl⟩)
            rw [← hfst]
            exact List.mem_map_of_mem hp
          · rw [hkeys]
            exact (validateBatch_ok hvalid).2

/-- **A batch answers like the reference store.** -/
theorem checkAll_refines (alg : Algorithm P E) (hd : Inv data) (hmax : now ≤ maxMillis)
    (hnow : ∀ i ∈ touched config checks, observed data i ≤ now) :
    RefStore.checkAll alg now checks (abs data) =
      ((checkAll alg now checks data).1, abs (checkAll alg now checks data).2) := by
  have hentry : evaluateAll alg now ((abs data).advance (touched config checks) now).entry checks =
      evaluateAll alg now (entry now data) checks :=
    evaluateAll_congr fun c hc => entry_advance (mem_touched.2 ⟨c, hc, rfl⟩) hnow
  unfold RefStore.checkAll checkAll
  cases hvalid : validateBatch checks config.maxBatchSize with
  | error e => rfl
  | ok u =>
    cases hrouted : overfull config checks with
    | some e => rfl
    | none =>
      simp only [hentry]
      cases hev : evaluateAll alg now (entry now data) checks with
      | error e => rfl
      | ok verdicts =>
        obtain ⟨hfst, -⟩ := evaluateAll_ok hev
        simp only [← firstDenial_eq hd hmax hnow hrouted hfst checks.length]
        have habs := abs_cleanup (budget config checks) hd hmax hnow
        rw [← habs]
        cases firstDenial checks.length now
            (cleanup (budget config checks) (touched config checks) now data) verdicts with
        | some outcome => rfl
        | none =>
          simp only
          rw [abs_putAll (evaluateAll_fits hd hnow hev)]
          intro p hp
          refine cleanup_observed hd hmax hnow (mem_touched.2 ⟨p.1, ?_, rfl⟩)
          rw [← hfst]
          exact List.mem_map_of_mem hp

end Batch

/-! ## Facts about every stored entry -/

section Stored

variable {alg : Algorithm P E} {data : Data config E} {now : ℕ} {c : Check P} {checks : List (Check P)}
  {I : CounterKey → StoredEntry E → Prop}

/-- Every stored entry satisfies `I` with its key. -/
def Stored (I : CounterKey → StoredEntry E → Prop) (data : Data config E) : Prop :=
  ∀ i key entry, (data i).entries.lookup key = some entry → I key entry

/-- Removal keeps what is known of every stored entry. -/
theorem Stored.cleanup (h : Stored I data) {budget : Fin config.shardCount → ℕ}
    {touched : Finset (Fin config.shardCount)} (hd : Inv data) (hmax : now ≤ maxMillis)
    (hnow : ∀ i ∈ touched, observed data i ≤ now) : Stored I (cleanup budget touched now data) := by
  intro i key entry hl
  unfold Bounded.cleanup at hl
  split at hl
  · rename_i hi
    have hp := (Shard.prune_spec now (budget i) ((hd.shard i).record (hnow i hi) hmax)).2
    rcases hp.lookup_eq key with h' | ⟨h', -⟩
    · rw [h'] at hl
      exact h i key entry hl
    · rw [h'] at hl
      cases hl
  · exact h i key entry hl

theorem Stored.update_put (h : Stored I data) {i : Fin config.shardCount} {key : CounterKey}
    {entry : StoredEntry E} (hI : I key entry) :
    Stored I (Function.update data i ((data i).put key entry)) := by
  intro j key' entry' hl
  by_cases hj : j = i
  · rw [hj, Function.update_self, Shard.put_entries, Finmap.lookup_insert_if] at hl
    split at hl
    · rename_i hkey
      cases hl
      rw [hkey]
      exact hI
    · exact h i key' entry' hl
  · rw [Function.update_of_ne hj] at hl
    exact h j key' entry' hl

/-- So does storing the entries of a batch, if they have it. -/
theorem Stored.putAll : ∀ {verdicts : List (Check P × Verdict E)} {data : Data config E}, Stored I data →
    (∀ p ∈ verdicts, ∀ entry allowance, p.2 = .allowed entry allowance → I p.1.counterKey entry) →
    Stored I (putAll verdicts data) := by
  intro verdicts
  induction verdicts with
  | nil => intro data h _; exact h
  | cons p rest ih =>
    intro data h hI
    obtain ⟨c, v⟩ := p
    rw [List.forall_mem_cons] at hI
    cases v with
    | denied d => exact ih h hI.2
    | allowed e a => exact ih (h.update_put (hI.1 e a rfl)) hI.2

/-- A single check keeps what its algorithm establishes of the entries it writes. -/
theorem check_stored (alg : Algorithm P E) (hd : Inv data) (hmax : now ≤ maxMillis) (hnow : observed data (c.shard config) ≤ now)
    (h : Stored I data)
    (hI : ∀ e a, alg.evaluate c now (entry now data c) = .ok (.allowed e a) → I c.counterKey e) :
    Stored I (check alg now c data).2 := by
  have hclean : Stored I
      (Bounded.cleanup (fun _ => config.maxExpiredRemovalsPerCheck) {c.shard config} now data) :=
    h.cleanup hd hmax (mem_touched_singleton hnow)
  unfold check
  cases hev : alg.evaluate c now (entry now data c) with
  | error e => exact h
  | ok verdict =>
    cases verdict with
    | denied d => exact hclean
    | allowed e a =>
      simp only
      split
      · exact hclean
      · exact hclean.update_put (hI e a hev)

/-- A batch keeps what its algorithm establishes of the entries it writes. -/
theorem checkAll_stored (alg : Algorithm P E) (hd : Inv data) (hmax : now ≤ maxMillis)
    (hnow : ∀ i ∈ touched config checks, observed data i ≤ now) (h : Stored I data)
    (hI : ∀ c ∈ checks, ∀ e a, alg.evaluate c now (entry now data c) = .ok (.allowed e a) →
      I c.counterKey e) :
    Stored I (checkAll alg now checks data).2 := by
  unfold checkAll
  split
  · exact h
  · split
    · exact h
    · split
      · exact h
      · rename_i verdicts hev
        have hclean : Stored I (Bounded.cleanup (budget config checks) (touched config checks) now data) :=
          h.cleanup hd hmax hnow
        simp only
        split
        · exact hclean
        · refine hclean.putAll ?_
          obtain ⟨hfst, hall⟩ := evaluateAll_ok hev
          intro p hp e a hv
          have hmem : p.1 ∈ checks := by
            rw [← hfst]
            exact List.mem_map_of_mem hp
          refine hI p.1 hmem e a ?_
          rw [← hv]
          exact hall p hp

end Stored

end Bounded

end Runlimit
