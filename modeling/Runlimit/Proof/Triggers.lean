import Runlimit.Proof.PgWindowAgrees
import Runlimit.Spec.Sessions

/-!
# The statement triggers of the fixed windows

An `INSERT` and a `DELETE` count what they do to the rows of a shard in its ledger row: where the ledger was
exact it is exact afterwards (`insertRows_counted`, `deleteRows_counted`). The upsert of an admission is such an
`INSERT` (`upsert_counted`).
-/

namespace Runlimit

open Ledger

namespace PgWindows

/-- The ledger of a shard is exact and within the hard limit. -/
def Exact (tables : WindowTables) (shard : CapacityShard) : Prop :=
  Tables.ExactAt id capacityShard hardMaxRowsPerShard tables.store shard

/-- A statement that changes some rows, and counts what it does in some shards. -/
abbrev Counted (tables tables' : WindowTables) (rows : Finset CounterKey) (shards : Finset CapacityShard) : Prop :=
  Ledger.Counted id capacityShard hardMaxRowsPerShard tables.store tables'.store rows shards

variable {tables tables' : WindowTables} {rows : Finset CounterKey} {shards : Finset CapacityShard}

/-- A statement that satisfies the four conditions counts what it changes. -/
theorem counted (hlookup : ∀ key ∉ rows, tables'.rows.lookup key = tables.rows.lookup key)
    (hcounts : ∀ shard ∉ shards, tables'.rowCounts shard = tables.rowCounts shard)
    (hkeys : ∀ key, capacityShard key ∉ shards → (key ∈ tables'.rows.keys ↔ key ∈ tables.rows.keys))
    (hexact : ∀ shard, Exact tables shard → Exact tables' shard) : Counted tables tables' rows shards :=
  ⟨hlookup, hcounts, hkeys, hexact⟩

/-- The keys of an `INSERT` that have no row. -/
def absentKeys (tables : WindowTables) (keys : List CounterKey) : List CounterKey :=
  keys.filter fun key => (tables.rows.lookup key).isNone

/-- Absent are the keys without a row. -/
theorem mem_absentKeys {keys : List CounterKey} {key : CounterKey} :
    key ∈ absentKeys tables keys ↔ key ∈ keys ∧ key ∉ tables.rows.keys := by
  unfold absentKeys
  rw [List.mem_filter, Option.isNone_iff_eq_none, Finmap.notMem_keys_iff]

/-- A shard of none of the keys counts none. -/
theorem count_eq_zero_of_notMem {keys : List CounterKey} {shard : CapacityShard} (h : shard ∉ keys.map capacityShard) :
    (keys.map capacityShard).count shard = 0 := List.count_eq_zero.2 h

/-- What the loop of the insert trigger leaves in the ledger. -/
theorem capacityAfterInsert_ok {rowCounts : CapacityShard → ℕ} {keys : List CounterKey}
    {entries : List (CapacityShard × ℕ)} (h : capacityAfterInsert rowCounts keys = .ok entries) (shard : CapacityShard) :
    entries.foldl (fun counts entry => Function.update counts entry.1 entry.2) rowCounts shard =
        rowCounts shard + (keys.map capacityShard).count shard ∧
      (shard ∈ keys.map capacityShard →
        rowCounts shard + (keys.map capacityShard).count shard ≤ hardMaxRowsPerShard) := by
  -- the loop stops at the first shard that would be overfilled
  obtain ⟨rfl, hroom⟩ := mapM_guarded h
  have hmem : shard ∈ ((keys.map capacityShard).insertionSort (· ≤ ·)).dedup ↔ shard ∈ keys.map capacityShard := by
    rw [List.mem_dedup, List.mem_insertionSort]
  rw [Function.foldl_update]
  by_cases hshard : shard ∈ keys.map capacityShard
  · rw [if_pos (hmem.2 hshard)]
    exact ⟨rfl, fun _ => Nat.not_lt.1 (hroom shard (hmem.2 hshard))⟩
  · rw [if_neg fun h => hshard (hmem.1 h), count_eq_zero_of_notMem hshard, Nat.add_zero]
    exact ⟨rfl, fun h => absurd h hshard⟩

/-- What the loop of the delete trigger leaves in the ledger. -/
theorem capacityAfterDelete_ok {rowCounts : CapacityShard → ℕ} {keys : List CounterKey}
    {entries : List (CapacityShard × ℕ)} (h : capacityAfterDelete rowCounts keys = .ok entries) (shard : CapacityShard) :
    entries.foldl (fun counts entry => Function.update counts entry.1 entry.2) rowCounts shard +
      (keys.map capacityShard).count shard = rowCounts shard := by
  obtain ⟨rfl, hroom⟩ := mapM_guarded h
  have hmem : shard ∈ ((keys.map capacityShard).insertionSort (· ≤ ·)).dedup ↔ shard ∈ keys.map capacityShard := by
    rw [List.mem_dedup, List.mem_insertionSort]
  rw [Function.foldl_update]
  by_cases hshard : shard ∈ keys.map capacityShard
  · rw [if_pos (hmem.2 hshard)]
    have hle := hroom shard (hmem.2 hshard)
    omega
  · rw [if_neg fun h => hshard (hmem.1 h), count_eq_zero_of_notMem hshard, Nat.add_zero]

/-- What an `INSERT` leaves: its rows, and the counts of the shards of those that had none. -/
theorem insertRows_ok {inserted : List (CounterKey × WindowRow)} {writes : Writes}
    (h : insertRows inserted tables = .ok writes) :
    (writes.apply tables).rows = inserted.foldl (fun rows entry => rows.insert entry.1 entry.2) tables.rows ∧
      ∀ shard, (writes.apply tables).rowCounts shard =
          tables.rowCounts shard + ((absentKeys tables (inserted.map Prod.fst)).map capacityShard).count shard ∧
        (shard ∈ (absentKeys tables (inserted.map Prod.fst)).map capacityShard →
          (writes.apply tables).rowCounts shard ≤ hardMaxRowsPerShard) := by
  obtain ⟨counts, hcounts, hwrites⟩ := except_bind_eq_ok.1 h
  cases hwrites
  refine ⟨rfl, fun shard => ?_⟩
  obtain ⟨hledger, hle⟩ := capacityAfterInsert_ok hcounts shard
  exact ⟨hledger, fun hshard => hledger.trans_le (hle hshard)⟩

/-- **An `INSERT` counts the rows it adds.** -/
theorem insertRows_counted {inserted : List (CounterKey × WindowRow)} {writes : Writes}
    (hnodup : (inserted.map Prod.fst).Nodup) (h : insertRows inserted tables = .ok writes) :
    Counted tables (writes.apply tables) (inserted.map Prod.fst).toFinset
      ((absentKeys tables (inserted.map Prod.fst)).map capacityShard).toFinset := by
  obtain ⟨hrows, hledger⟩ := insertRows_ok h
  have hlookup : ∀ key, key ∉ inserted.map Prod.fst →
      (writes.apply tables).rows.lookup key = tables.rows.lookup key := by
    intro key hkey
    rw [hrows]
    exact Finmap.lookup_foldl_insert_of_notMem fun entry hentry heq => hkey (List.mem_map.2 ⟨entry, hentry, heq⟩)
  -- a key has a row afterwards if it had one, or is one of those inserted
  have hkeys : ∀ key, key ∈ (writes.apply tables).rows.keys ↔
      key ∈ tables.rows.keys ∨ key ∈ absentKeys tables (inserted.map Prod.fst) := by
    intro key
    rw [mem_absentKeys]
    by_cases hkey : key ∈ inserted.map Prod.fst
    · obtain ⟨entry, hentry, rfl⟩ := List.mem_map.1 hkey
      have hpresent : entry.1 ∈ (writes.apply tables).rows.keys := by
        rw [hrows]
        exact Finmap.mem_keys_iff.2 ⟨_, Finmap.lookup_foldl_insert_of_mem hnodup hentry⟩
      tauto
    · rw [Finmap.mem_keys_congr (hlookup key hkey)]
      tauto
  refine counted (fun key hkey => hlookup key fun hmem => hkey (List.mem_toFinset.2 hmem)) ?_ ?_ ?_
  · intro shard hshard
    rw [(hledger shard).1, count_eq_zero_of_notMem fun hmem => hshard (List.mem_toFinset.2 hmem), Nat.add_zero]
  · intro key hkey
    rw [hkeys]
    refine or_iff_left fun hmem => hkey ?_
    exact List.mem_toFinset.2 (List.mem_map_of_mem hmem)
  · intro shard hexact
    refine Tables.ExactAt.grown hexact (hnodup.filter _) (fun key hkey => (mem_absentKeys.1 hkey).2) hkeys
      (hledger shard).1 ?_
    -- the trigger refuses a shard it would overfill, and leaves the others as they are
    by_cases hshard : shard ∈ (absentKeys tables (inserted.map Prod.fst)).map capacityShard
    · exact (hledger shard).2 hshard
    · have hsame := (hledger shard).1
      rw [count_eq_zero_of_notMem hshard, Nat.add_zero] at hsame
      exact hsame.trans_le hexact.count_le

/-- **A `DELETE` counts the rows it removes.** -/
theorem deleteRows_counted {deleted : List CounterKey} (hnodup : deleted.Nodup)
    (hpresent : ∀ key ∈ deleted, key ∈ tables.rows.keys) (h : deleteRows deleted tables = .ok tables') :
    Counted tables tables' deleted.toFinset (deleted.map capacityShard).toFinset := by
  have hlookup := deleteRows_lookup h
  obtain ⟨counts, hcounts, hok⟩ := except_bind_eq_ok.1 h
  cases hok
  have hledger := capacityAfterDelete_ok hcounts
  have hkeys : ∀ key, key ∈ (deleted.foldl (fun rows key => rows.erase key) tables.rows).keys ↔
      key ∈ tables.rows.keys ∧ key ∉ deleted := by
    intro key
    have hkey := hlookup key
    by_cases hmem : key ∈ deleted
    · rw [if_pos hmem] at hkey
      have habsent := Finmap.notMem_keys_iff.2 hkey
      tauto
    · rw [if_neg hmem] at hkey
      have hsame := Finmap.mem_keys_congr hkey
      tauto
  refine counted ?_ ?_ ?_ ?_
  · intro key hkey
    rw [hlookup key, if_neg fun hmem => hkey (List.mem_toFinset.2 hmem)]
  · intro shard hshard
    have hcount := hledger shard
    rw [count_eq_zero_of_notMem fun hmem => hshard (List.mem_toFinset.2 hmem), Nat.add_zero] at hcount
    exact hcount
  · intro key hkey
    rw [hkeys]
    refine and_iff_left fun hmem => hkey ?_
    exact List.mem_toFinset.2 (List.mem_map_of_mem hmem)
  · intro shard hexact
    exact Tables.ExactAt.shrunk hexact hnodup hpresent hkeys (hledger shard)

section Upsert

variable [Sha2] {checks : List (Check FixedWindowPolicy)} {now : ℕ} {writes : Writes}

/-- The upsert of an admission is an `INSERT` of the rows it stores. -/
theorem upsert_eq_insertRows :
    upsert tables now checks = insertRows ((upsertedRows tables now checks).map (·.2)) tables := by
  unfold upsert insertRows
  rw [List.map_map]
  rfl

/-- An upsert stores rows of its batch, each key once. -/
theorem upsertedRows_sublist :
    (((upsertedRows tables now checks).map (·.2)).map Prod.fst).Sublist (checks.map Check.counterKey) := by
  have hfrom : ∀ (checks : List (Check FixedWindowPolicy)) (n : ℕ),
      ((((checks.zipIdx n).filterMap fun p =>
        (upserted now p.1 (tables.rows.lookup p.1.counterKey)).map fun row => (p.2, p.1.counterKey, row)).map
          (·.2)).map Prod.fst).Sublist (checks.map Check.counterKey) := by
    intro checks
    induction checks with
    | nil => exact fun _ => List.Sublist.slnil
    | cons c rest ih =>
      intro n
      rw [List.zipIdx_cons, List.filterMap_cons, List.map_cons]
      cases upserted now c (tables.rows.lookup c.counterKey) with
      | none => exact (ih (n + 1)).cons _
      | some row => exact (ih (n + 1)).cons_cons _
  exact hfrom checks 0

/-- The shards of the checks without a row. -/
theorem mem_insertedShards {shard : CapacityShard} :
    shard ∈ insertedShards tables checks ↔
      ∃ c ∈ checks, tables.rows.lookup c.counterKey = none ∧ capacityShard c.counterKey = shard := by
  unfold insertedShards targetShards missingKeys
  rw [List.mem_dedup, List.mem_insertionSort, List.mem_map]
  constructor
  · rintro ⟨entry, hentry, rfl⟩
    obtain ⟨p, hp, hsome⟩ := List.mem_filterMap.1 hentry
    split at hsome
    · rename_i hnone
      cases hsome
      exact ⟨p.1, List.fst_mem_of_mem_zipIdx hp, Option.isNone_iff_eq_none.1 hnone, rfl⟩
    · cases hsome
  · rintro ⟨c, hc, hnone, rfl⟩
    -- the row number is the place of the check in the batch
    obtain ⟨n, hn⟩ := List.getElem?_of_mem hc
    refine ⟨(n, capacityShard c.counterKey), List.mem_filterMap.2 ⟨(c, n), List.mem_zipIdx_iff_getElem?.2 hn, ?_⟩, rfl⟩
    simp only [hnone, Option.isNone_none, if_true]

/-- What a batch returns is read off the rows that it has written. -/
theorem upsertBatch_writes {allowances : List PendingAllowance}
    (h : upsertBatch tables now checks = .ok (allowances, writes)) : upsert tables now checks = .ok writes := by
  obtain ⟨writes', hwrites, h⟩ := except_bind_eq_ok.1 h
  simp only at h
  split at h
  · cases h
  · obtain ⟨allowances', -, h⟩ := except_bind_eq_ok.1 h
    split at h
    · cases h
    · cases h
      exact hwrites

/-- **The upsert of an admission counts the rows it adds.** -/
theorem upsert_counted (hnodup : (checks.map Check.counterKey).Nodup) (h : upsert tables now checks = .ok writes) :
    Counted tables (writes.apply tables) (checks.map Check.counterKey).toFinset
      (insertedShards tables checks).toFinset := by
  rw [upsert_eq_insertRows] at h
  refine (insertRows_counted (upsertedRows_sublist.nodup hnodup) h).mono ?_ ?_
  · intro key hkey
    exact List.mem_toFinset.2 (upsertedRows_sublist.mem (List.mem_toFinset.1 hkey))
  · intro shard hshard
    obtain ⟨key, hkey, rfl⟩ := List.mem_map.1 (List.mem_toFinset.1 hshard)
    obtain ⟨hmem, habsent⟩ := mem_absentKeys.1 hkey
    obtain ⟨c, hc, rfl⟩ := List.mem_map.1 (upsertedRows_sublist.mem hmem)
    exact List.mem_toFinset.2 (mem_insertedShards.2 ⟨c, hc, Finmap.notMem_keys_iff.1 habsent, rfl⟩)

end Upsert

end PgWindows

end Runlimit
