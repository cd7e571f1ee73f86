import Runlimit.Proof.Batch

/-!
# Batch routing

`BatchTopology.new` sorts and groups the shard indexes of a batch. It never unwinds (`new_eq`);
it fails exactly when the routing check of the reference store does, with the same error
(`topology_new`); otherwise its shards are the distinct indexes in ascending order with their
multiplicities, and each input's position points at its shard.
-/

namespace Runlimit

namespace BatchTopology

variable {n : ℕ}

/-- The distinct indexes, ascending. -/
def indexes (shardIndexes : List (Fin n)) : List (Fin n) :=
  (List.finRange n).filter fun i => decide (i ∈ shardIndexes)

/-- The place of an index among ascending ones. -/
def position (base : List (Fin n)) (i : Fin n) : ℕ := (base.takeWhile fun j => decide (j < i)).length

theorem indexes_sorted (shardIndexes : List (Fin n)) : (indexes shardIndexes).Pairwise (· < ·) :=
  (List.pairwise_lt_finRange n).filter _

/-- Every routed index is there. -/
theorem mem_indexes {shardIndexes : List (Fin n)} {i : Fin n} :
    i ∈ indexes shardIndexes ↔ i ∈ shardIndexes := by
  unfold indexes
  rw [List.mem_filter, decide_eq_true_eq]
  exact and_iff_right (List.mem_finRange i)

theorem indexes_nodup (shardIndexes : List (Fin n)) : (indexes shardIndexes).Nodup :=
  (indexes_sorted shardIndexes).imp fun h => h.ne

/-- Sorting and removing repetitions gives the distinct indexes, ascending. -/
theorem distinctShards_eq (shardIndexes : List (Fin n)) :
    distinctShards shardIndexes = (indexes shardIndexes).map fun i => ⟨i, 0⟩ := by
  set sorted := shardIndexes.insertionSort (· ≤ ·) with hsorted
  have hpairwise : sorted.Pairwise (· ≤ ·) := List.pairwise_insertionSort _ _
  -- sorted and without repetitions: the same members, each once, in the same order
  have hmem : ∀ i, i ∈ sorted.dedup ↔ i ∈ indexes shardIndexes := by
    intro i
    rw [List.mem_dedup, hsorted, List.mem_insertionSort, mem_indexes]
  have hperm : sorted.dedup.Perm (indexes shardIndexes) :=
    (List.perm_ext_iff_of_nodup (List.nodup_dedup _) (indexes_nodup _)).2 hmem
  have heq : sorted.destutter (· ≠ ·) = indexes shardIndexes := by
    rw [hpairwise.destutter_eq_dedup]
    exact hperm.eq_of_pairwise' (hpairwise.sublist (List.dedup_sublist _))
      ((indexes_sorted _).imp le_of_lt)
  have hsort := List.map_insertionSort (· ≤ ·) (fun a b : BatchShard n => a.index ≤ b.index)
    (fun i => BatchShard.mk i 0) shardIndexes fun a _ b _ => Iff.rfl
  have hdestutter : (sorted.destutter (· ≠ ·)).map (fun i => BatchShard.mk i 0) =
      (sorted.map fun i => BatchShard.mk i 0).destutter fun a b => a.index ≠ b.index :=
    List.map_destutter fun a _ b _ => Iff.rfl
  unfold distinctShards
  rw [← hsort, ← hsorted, ← hdestutter, heq]

/-- The position of an index leads back to it. -/
theorem getElem_position {base : List (Fin n)} (hbase : base.Pairwise (· < ·)) {i : Fin n}
    (hi : i ∈ base) : base[position base i]? = some i := by
  unfold position
  induction base with
  | nil => cases hi
  | cons b base ih =>
    rw [List.pairwise_cons] at hbase
    by_cases hb : b < i
    · rw [List.takeWhile_cons_of_pos (by simpa using hb), List.length_cons, List.getElem?_cons_succ]
      refine ih hbase.2 ?_
      rcases List.mem_cons.1 hi with h | h
      · exact absurd h.symm hb.ne
      · exact h
    · -- nothing after the head is smaller than it
      rw [List.takeWhile_cons_of_neg (by simpa using hb)]
      rcases List.mem_cons.1 hi with h | h
      · rw [h]; rfl
      · exact absurd (hbase.1 i h) hb

/-- Counting one input at its position. -/
theorem set_position {base : List (Fin n)} (hbase : base.Pairwise (· < ·)) {i : Fin n} (hi : i ∈ base)
    (count : Fin n → ℕ) :
    (base.map fun j => BatchShard.mk j (count j)).set (position base i) ⟨i, count i + 1⟩ =
      base.map fun j => BatchShard.mk j (Function.update count i (count i + 1) j) := by
  refine List.ext_getElem? fun k => ?_
  have hpos := getElem_position hbase hi
  rw [List.getElem?_set, List.getElem?_map, List.getElem?_map]
  split
  · rename_i hk
    rw [← hk, hpos]
    have hlt : position base i < (base.map fun j => BatchShard.mk j (count j)).length := by
      rw [List.length_map]
      exact (List.getElem?_eq_some_iff.1 hpos).1
    rw [if_pos hlt, Option.map_some, Function.update_self]
  · rename_i hk
    cases hget : base[k]? with
    | none => rfl
    | some j =>
      -- another place holds another index
      have hne : j ≠ i := by
        rintro rfl
        have hnodup : base.Nodup := hbase.imp fun h => h.ne
        obtain ⟨h1, e1⟩ := List.getElem?_eq_some_iff.1 hget
        obtain ⟨h2, e2⟩ := List.getElem?_eq_some_iff.1 hpos
        exact hk (hnodup.getElem_inj_iff.1 (e2.trans e1.symm))
      rw [Option.map_some, Option.map_some, Function.update_of_ne hne]

/-- The routing loop never unwinds; it counts every input and records its position. -/
theorem route_eq {base : List (Fin n)} (hbase : base.Pairwise (· < ·)) :
    ∀ {rest : List (Fin n)} (count : Fin n → ℕ), (∀ i, count i + rest.length ≤ usizeMax) → (∀ i ∈ rest, i ∈ base) →
      route (base.map fun j => BatchShard.mk j (count j)) rest =
        .ok (base.map fun j => BatchShard.mk j (count j + rest.count j), rest.map (position base)) := by
  intro rest
  induction rest with
  | nil => intro count _ _; simp [route, except_pure]
  | cons i rest ih =>
    intro count hcount hmem
    rw [List.length_cons] at hcount
    have hone : count i + 1 ≤ usizeMax := by
      have := hcount i
      omega
    have hcount' : ∀ j, Function.update count i (count i + 1) j + rest.length ≤ usizeMax := by
      intro j
      have := hcount j
      by_cases hj : j = i
      · subst hj
        rw [Function.update_self]
        omega
      · rw [Function.update_of_ne hj]
        omega
    rw [List.forall_mem_cons] at hmem
    -- the partition point of the groups is the position of their indexes
    have hpoint : partitionPoint (fun shard => decide (shard.index < i))
        (base.map fun j => BatchShard.mk j (count j)) = position base i := by
      unfold partitionPoint position
      rw [List.takeWhile_map, List.length_map]
      rfl
    have hget : (base.map fun j => BatchShard.mk j (count j))[position base i]? =
        some ⟨i, count i⟩ := by
      rw [List.getElem?_map, getElem_position hbase hmem.1]
      rfl
    unfold route
    simp only [hpoint, indexed_eq hget, except_ok_bind]
    rw [debugAssert_pos trivial, except_ok_bind, addUsize_eq hone, except_ok_bind, set_position hbase hmem.1,
      ih _ hcount' hmem.2, except_ok_bind, except_pure]
    refine congrArg Except.ok (Prod.ext ?_ rfl)
    refine List.map_congr_left fun j _ => ?_
    -- this input is counted in its own group
    by_cases hj : j = i
    · subst hj
      rw [Function.update_self, List.count_cons_self]
      exact congrArg (BatchShard.mk j) (by omega)
    · rw [Function.update_of_ne hj, List.count_cons_of_ne (Ne.symm hj)]

/-- The topology of a batch. -/
def ofIndexes (shardIndexes : List (Fin n)) : BatchTopology n where
  shards := (indexes shardIndexes).map fun i => ⟨i, shardIndexes.count i⟩
  inputPositions := shardIndexes.map (position (indexes shardIndexes))

/-- Routing from the sorted groups gives the topology. -/
theorem route_distinctShards {shardIndexes : List (Fin n)} (hlength : shardIndexes.length ≤ usizeMax) :
    route (distinctShards shardIndexes) shardIndexes =
      .ok ((ofIndexes shardIndexes).shards, (ofIndexes shardIndexes).inputPositions) := by
  rw [distinctShards_eq, route_eq (indexes_sorted _) (fun _ => 0) (fun _ => by rw [Nat.zero_add]; exact hlength)
    fun i hi => mem_indexes.2 hi]
  simp only [Nat.zero_add]
  rfl

variable {P : Type} [RateLimitPolicy P] {config : MemoryStoreConfig}

/-- The first group above its capacity is the first shard above its capacity. -/
theorem find_overfull (shardIndexes : List (Fin config.shardCount)) :
    (ofIndexes shardIndexes).shards.find?
        (fun shard => decide (config.shardCapacity shard.index < shard.checkCount)) =
      ((List.finRange config.shardCount).find? fun i : Fin config.shardCount =>
        decide (config.shardCapacity i < shardIndexes.count i)).map fun i => ⟨i, shardIndexes.count i⟩ := by
  unfold ofIndexes indexes
  rw [List.find?_map, List.find?_filter]
  refine congrArg _ (congrArg (fun p => List.find? p (List.finRange config.shardCount)) ?_)
  funext i
  refine decide_eq_decide.2 ?_
  rw [decide_eq_true_eq, Function.comp_apply, decide_eq_true_eq]
  refine ⟨And.right, fun h => ⟨?_, h⟩⟩
  refine List.count_pos_iff.1 ?_
  omega

/-- **Routing.** The topology is the sorted grouping of the inputs, unless a shard is routed more than it
can hold. -/
theorem new_eq (config : MemoryStoreConfig) {shardIndexes : List (Fin config.shardCount)}
    (hlength : shardIndexes.length ≤ usizeMax) :
    BatchTopology.new config shardIndexes =
      .ok (match (List.finRange config.shardCount).find? fun i : Fin config.shardCount =>
          decide (config.shardCapacity i < shardIndexes.count i) with
        | some i => .error (.batchExceedsShardCapacity i (shardIndexes.count i) (config.shardCapacity i))
        | none => .ok (ofIndexes shardIndexes)) := by
  unfold BatchTopology.new
  rw [route_distinctShards hlength, except_ok_bind]
  simp only [find_overfull]
  cases (List.finRange config.shardCount).find? fun i : Fin config.shardCount =>
    decide (config.shardCapacity i < shardIndexes.count i) with
  | none => rfl
  | some i => rfl

/-- A batch is routed, or fails with the reference store's routing error. -/
theorem topology_new (config : MemoryStoreConfig) {checks : List (Check P)} (hlength : checks.length ≤ usizeMax) :
    BatchTopology.new config (checks.map (Check.shard config)) =
      .ok (match overfull config checks with
        | some error => .error error
        | none => .ok (ofIndexes (checks.map (Check.shard config)))) := by
  rw [new_eq config (by rw [List.length_map]; exact hlength)]
  unfold overfull demand
  cases (List.finRange config.shardCount).find? fun i : Fin config.shardCount =>
    decide (config.shardCapacity i < (checks.map (Check.shard config)).count i) with
  | none => rfl
  | some i => rfl

end BatchTopology

end Runlimit
