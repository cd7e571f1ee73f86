import Runlimit.Proof.Bounded
import Runlimit.Proof.Topology

/-!
# What a call does under its locks

The parts of an atomic batch that both stores share, as the pure functions of the bounded
store: the guards are the shards the batch touches, ascending (`lockTopology_eq`), each
prepared check knows the guard of its shard (`getElem_guard`), the clock is clamped to the
greatest time these shards have observed (`clamp_eq`), and the cleanup loop is `cleanup`
(`cleanupLocked_eq`).
-/

namespace Runlimit

open BatchTopology

namespace BoundedShards

variable {P E : Type} [RateLimitPolicy P] {config : MemoryStoreConfig}
  {shards : BoundedShards config E} {checks : List (Check P)}

/-- The guards of a batch. -/
def guards (config : MemoryStoreConfig) (checks : List (Check P)) : List (Fin config.shardCount) :=
  indexes (checks.map (Check.shard config))

/-- The position of a check's guard. -/
def guardPosition (config : MemoryStoreConfig) (checks : List (Check P)) (c : Check P) : ℕ :=
  position (guards config checks) (c.shard config)

/-- The guards are those of the touched shards. -/
theorem mem_guards {i : Fin config.shardCount} : i ∈ guards config checks ↔ i ∈ touched config checks := by
  unfold guards touched
  rw [mem_indexes, List.mem_toFinset]

theorem guards_nodup : (guards config checks).Nodup := indexes_nodup _

/-- The position of a check leads to its shard. -/
theorem getElem_guard (config : MemoryStoreConfig) {c : Check P} (hc : c ∈ checks) :
    (guards config checks)[guardPosition config checks c]? = some (c.shard config) :=
  getElem_position (indexes_sorted _) (mem_guards.2 (mem_touched.2 ⟨c, hc, rfl⟩))

/-- The index of a guard does not unwind. -/
theorem indexed_guard {c : Check P} (hc : c ∈ checks) :
    indexed (guards config checks) (guardPosition config checks c) = .ok (c.shard config) :=
  indexed_eq (getElem_guard config hc)

/-- Without a poisoned shard among them, the guards are all acquired. -/
theorem lockTopology_eq (h : ∀ i ∈ touched config checks, (shards i).poisoned = false) :
    shards.lockTopology (ofIndexes (checks.map (Check.shard config))) = .ok (guards config checks) := by
  -- locking goes through the groups in order and stops at none
  have key : ∀ l : List (Fin config.shardCount), (∀ i ∈ l, (shards i).poisoned = false) →
      (l.map fun i => BatchShard.mk i ((checks.map (Check.shard config)).count i)).mapM
        (fun shard => shards.lockShard shard.index) = .ok l := by
    intro l
    induction l with
    | nil => intro _; rfl
    | cons i l ih =>
      intro hl
      rw [List.forall_mem_cons] at hl
      rw [List.map_cons, List.mapM_cons, ih hl.2]
      unfold lockShard
      simp only [hl.1, except_ok_bind]
      rfl
  exact key _ fun i hi => h i (mem_guards.1 hi)

/-- Each check is prepared with the position of its guard. -/
theorem prepared_eq {α : Type} (prepare : ℕ → Check P → ℕ → α) :
    checks.zipIdx.mapM (fun p => do
        return prepare p.2 p.1 (← (ofIndexes (checks.map (Check.shard config))).shardPosition p.2)) =
      (.ok (checks.zipIdx.map fun p => prepare p.2 p.1 (guardPosition config checks p.1)) : Panics _) := by
  have key : ∀ l : List (Check P × ℕ), (∀ p ∈ l, checks[p.2]? = some p.1) →
      l.mapM (fun p => do
        return prepare p.2 p.1 (← (ofIndexes (checks.map (Check.shard config))).shardPosition p.2)) =
      (.ok (l.map fun p => prepare p.2 p.1 (guardPosition config checks p.1)) : Panics _) := by
    intro l
    induction l with
    | nil => intro _; rfl
    | cons p l ih =>
      intro hl
      rw [List.forall_mem_cons] at hl
      have hpos : (ofIndexes (checks.map (Check.shard config))).shardPosition p.2 =
          .ok (guardPosition config checks p.1) := by
        refine indexed_eq ?_
        unfold ofIndexes
        simp only [List.getElem?_map, hl.1, Option.map_some]
        rfl
      rw [List.mapM_cons, ih hl.2, hpos]
      rfl
  refine key _ fun p hp => ?_
  exact List.mk_mem_zipIdx_iff_getElem?.1 hp

/-- The clock is clamped to the times of the touched shards. -/
theorem clamp_eq (checks : List (Check P)) (observed : Fin config.shardCount → ℕ) (reading : Duration) :
    (guards config checks).foldl (fun now i => max now (observed i)) reading.asMillis =
      clampedMillis observed checks reading := by
  have key : ∀ (l : List (Fin config.shardCount)) (now : ℕ),
      l.foldl (fun now i => max now (observed i)) now = max now (l.toFinset.sup observed) := by
    intro l
    induction l with
    | nil => intro now; simp
    | cons i l ih =>
      intro now
      rw [List.foldl_cons, ih, List.toFinset_cons, Finset.sup_insert, max_assoc]
  -- the maximum over the guards is that over the touched shards
  have hset : (guards config checks).toFinset = touched config checks := by
    ext i
    rw [List.mem_toFinset, mem_guards]
  rw [key, hset]
  rfl

/-- The cleanup loop of a batch, as a function of the shard. -/
theorem cleanupLocked_eq {data : Bounded.Data config E} {now : ℕ} (hd : Bounded.Inv data)
    (hmax : now ≤ maxMillis) (hnow : ∀ i ∈ touched config checks, Bounded.observed data i ≤ now) :
    ∃ effects, effects.length = (guards config checks).length ∧
      cleanupLocked config.maxExpiredRemovalsPerCheck now
          ((guards config checks).zip (ofIndexes (checks.map (Check.shard config))).checkCounts) data =
        .ok (effects, Bounded.cleanup (Bounded.budget config checks) (touched config checks) now data) := by
  have key : ∀ (l : List (Fin config.shardCount)) (data : Bounded.Data config E), l.Nodup →
      (∀ i ∈ l, (data i).Inv ∧ (data i).latestObservedMillis ≤ now) →
      ∃ effects, effects.length = l.length ∧
        cleanupLocked config.maxExpiredRemovalsPerCheck now (l.map fun i => (i, demand config checks i)) data =
          .ok (effects, Bounded.cleanup (Bounded.budget config checks) l.toFinset now data) := by
    intro l
    induction l with
    | nil =>
      intro data _ _
      refine ⟨[], rfl, ?_⟩
      unfold cleanupLocked Bounded.cleanup
      simp [except_pure]
    | cons i l ih =>
      intro data hnodup hl
      rw [List.nodup_cons] at hnodup
      rw [List.forall_mem_cons] at hl
      set shard := Shard.prune now (Bounded.budget config checks i) ((data i).recordObservedMillis now)
        with hshard
      -- the later guards are of other shards, and see them as they were
      obtain ⟨effects, hlen, heq⟩ := ih (Function.update data i shard) hnodup.2 (by
        intro j hj
        have hne : j ≠ i := fun h => hnodup.1 (h ▸ hj)
        rw [Function.update_of_ne hne]
        exact hl.2 j hj)
      have hprune := Shard.pruneExpired_eq now
        (saturatingMul config.maxExpiredRemovalsPerCheck (demand config checks i))
        (hl.1.1.record hl.1.2 hmax)
      refine ⟨⟨Bounded.budget config checks i, (data i).used - shard.used⟩ :: effects,
        by rw [List.length_cons, List.length_cons, hlen], ?_⟩
      rw [List.map_cons]
      unfold cleanupLocked
      simp only [hprune, except_ok_bind]
      rw [show Shard.prune now (saturatingMul config.maxExpiredRemovalsPerCheck (demand config checks i))
        ((data i).recordObservedMillis now) = shard from rfl, heq, except_ok_bind, except_pure]
      refine congrArg Except.ok (Prod.ext rfl ?_)
      funext j
      unfold Bounded.cleanup
      simp only [List.mem_toFinset, List.mem_cons]
      by_cases hj : j = i
      · subst hj
        rw [if_neg hnodup.1, if_pos (Or.inl rfl), Function.update_self]
      · simp only [hj, false_or, Function.update_of_ne hj]
  -- each guard is cleaned up with the count of its own shard
  have hzip : (guards config checks).zip (ofIndexes (checks.map (Check.shard config))).checkCounts =
      (guards config checks).map fun i => (i, demand config checks i) := by
    unfold checkCounts ofIndexes guards
    rw [List.map_map]
    have hmap : ((indexes (checks.map (Check.shard config))).map id).zip
        ((indexes (checks.map (Check.shard config))).map (demand config checks)) = _ := List.zip_map'
    rw [List.map_id] at hmap
    exact hmap
  have hset : (guards config checks).toFinset = touched config checks := by
    ext i
    rw [List.mem_toFinset, mem_guards]
  obtain ⟨effects, hlen, heq⟩ := key (guards config checks) data guards_nodup fun i hi =>
    ⟨hd.shard i, hnow i (mem_guards.1 hi)⟩
  rw [hset] at heq
  exact ⟨effects, hlen, by rw [hzip, heq]⟩

/-- The counts of new keys, by guard and by shard. -/
def Counts (config : MemoryStoreConfig) (checks : List (Check P)) (byGuard : List ℕ)
    (byShard : Fin config.shardCount → ℕ) : Prop :=
  ∀ (p : ℕ) (i : Fin config.shardCount), (guards config checks)[p]? = some i → byGuard[p]? = some (byShard i)

theorem Counts.zero : Counts config checks (List.replicate (guards config checks).length 0) fun _ => 0 := by
  intro p i h
  rw [List.getElem?_replicate, if_pos (List.getElem?_eq_some_iff.1 h).1]

/-- Counting a key at its guard counts it for its shard. -/
theorem Counts.set {byGuard : List ℕ} {byShard : Fin config.shardCount → ℕ}
    (h : Counts config checks byGuard byShard) {c : Check P} (hc : c ∈ checks) (x : ℕ) :
    Counts config checks (byGuard.set (guardPosition config checks c) x)
      (Function.update byShard (c.shard config) x) := by
  intro p i hp
  rw [List.getElem?_set]
  have hguard := getElem_guard config hc
  split
  · rename_i hpos
    rw [← hpos, hguard] at hp
    cases hp
    have hlt : guardPosition config checks c < byGuard.length :=
      (List.getElem?_eq_some_iff.1 (h _ _ hguard)).1
    rw [if_pos hlt, Function.update_self]
  · rename_i hpos
    have hne : i ≠ c.shard config := by
      rintro rfl
      obtain ⟨h1, e1⟩ := List.getElem?_eq_some_iff.1 hp
      obtain ⟨h2, e2⟩ := List.getElem?_eq_some_iff.1 hguard
      exact hpos (guards_nodup.getElem_inj_iff.1 (e2.trans e1.symm))
    rw [Function.update_of_ne hne]
    exact h p i hp

theorem collectShardEffects_eq {n : ℕ} (data : Fin n → Shard E) {locked : List (Fin n)}
    {effects : List CleanupEffect} (h : locked.length = effects.length) :
    ∃ shardEffects, collectShardEffects data locked effects = .ok shardEffects := by
  unfold collectShardEffects
  rw [debugAssert_pos h]
  exact ⟨_, rfl⟩

end BoundedShards

end Runlimit
