import Runlimit.Proof.PgGcraSteps
import Runlimit.Spec.GcraSessions

/-!
# What the sessions of the durable GCRA limiter do

The row triggers count each inserted and deleted row (`upsertRow_counted`, `deleteRow_counted`), so every statement
counts what it writes (`programs_lawful`).

An admission locks the ledger rows of its shards before it reads a counter, and another session that adds or removes
a row of such a shard waits for it: which of its keys have rows stays so to its end, and so does the room it found
(`Kept`).
-/

namespace Runlimit

open Ledger

namespace PgGcra

/-! ## Row triggers -/

/-- A statement that changes some rows, and counts what it does in some shards. -/
abbrev Counted (tables tables' : GcraTables) (rows : Finset CounterKey) (shards : Finset CapacityShard) : Prop :=
  Ledger.Counted LedgerRow.rowCount capacityShard hardMaxRowsPerShard tables.store tables'.store rows shards

variable {tables tables' : GcraTables}

/-- One shard's ledger row is updated, and the count read with it. -/
theorem rowCount_update (shards : CapacityShard → LedgerRow) (changed shard : CapacityShard) (ledger : LedgerRow) :
    (Function.update shards changed ledger shard).rowCount =
      if shard = changed then ledger.rowCount else (shards shard).rowCount := by
  rw [Function.update_apply]
  split
  · rfl
  · rfl

/-- **An inserted row is counted.** -/
theorem upsertRow_counted {entry : CounterKey × GcraRow} (h : upsertRow tables entry = .ok tables') :
    Counted tables tables' {entry.1} {capacityShard entry.1} := by
  have hrows := (upsertRow_ok h).1
  have hlookup : ∀ key, key ≠ entry.1 → tables'.rows.lookup key = tables.rows.lookup key := by
    intro key hkey
    rw [hrows, Finmap.lookup_insert_if, if_neg hkey]
  have hkeys : ∀ key, key ∈ tables'.rows.keys ↔ key = entry.1 ∨ key ∈ tables.rows.keys := by
    intro key
    rw [hrows, Finmap.keys_insert, Finset.mem_insert]
  unfold upsertRow at h
  split at h
  · -- the row was there, and the trigger for inserted rows does not fire
    rename_i row hrow
    cases h
    have hsame : ∀ key, key ∈ (tables.rows.insert entry.1 entry.2).keys ↔ key ∈ tables.rows.keys := by
      intro key
      refine (hkeys key).trans (or_iff_right_of_imp ?_)
      rintro rfl
      exact Finmap.mem_keys_iff.2 ⟨row, hrow⟩
    refine ⟨fun key hkey => hlookup key (Finset.notMem_singleton.1 hkey), fun _ _ => rfl, fun key _ => hsame key, ?_⟩
    intro shard hexact
    exact hexact.congr rfl fun key _ => hsame key
  · rename_i hnone
    simp only at h
    split at h
    · cases h
    · -- a new row: the trigger adds one to its shard, which had room below the hard maximum
      rename_i hroom
      cases h
      refine ⟨fun key hkey => hlookup key (Finset.notMem_singleton.1 hkey), ?_, ?_, ?_⟩
      · intro shard hshard
        exact Function.update_of_ne (Finset.notMem_singleton.1 hshard) _ _
      · intro key hkey
        refine (hkeys key).trans (or_iff_right ?_)
        rintro rfl
        exact hkey (Finset.mem_singleton_self _)
      · intro shard hexact
        have hledger := rowCount_update tables.shards (capacityShard entry.1) shard
          ⟨(tables.shards (capacityShard entry.1)).rowCount + 1, (tables.shards (capacityShard entry.1)).observedAtMs⟩
        have hcount : (if shard = capacityShard entry.1 then (tables.shards (capacityShard entry.1)).rowCount + 1
            else (tables.shards shard).rowCount) =
            (tables.shards shard).rowCount + ([entry.1].map capacityShard).count shard := by
          rw [List.map_singleton, List.count_singleton]
          by_cases hshard : shard = capacityShard entry.1
          · rw [if_pos hshard, hshard, beq_self_eq_true, if_pos rfl]
          · rw [if_neg hshard, if_neg (by simpa using Ne.symm hshard), Nat.add_zero]
        refine hexact.grown (List.nodup_singleton entry.1) ?_ ?_ (hledger.trans hcount) ?_
        · intro key hkey
          rw [List.mem_singleton.1 hkey]
          exact Finmap.notMem_keys_iff.2 hnone
        · intro key
          rw [List.mem_singleton, or_comm]
          exact hkeys key
        · refine Nat.le_trans (Nat.le_of_eq hledger) ?_
          split
          · exact Nat.lt_of_not_le hroom
          · exact hexact.count_le

/-- **A deleted row is counted.** -/
theorem deleteRow_counted {key : CounterKey} (h : deleteRow tables key = .ok tables') :
    Counted tables tables' {key} {capacityShard key} := by
  unfold deleteRow at h
  split at h
  · cases h
    -- the row was not there: nothing is deleted and no trigger fires
    exact (Counted.refl tables.store).mono (Finset.empty_subset _) (Finset.empty_subset _)
  · rename_i row hrow
    simp only at h
    split at h
    · cases h
    · rename_i hpositive
      cases h
      have hlookup : ∀ other, (tables.rows.erase key).lookup other = if other = key then none else tables.rows.lookup other :=
        fun other => Finmap.lookup_erase_if tables.rows key other
      have hkeys : ∀ other, other ∈ (tables.rows.erase key).keys ↔ other ∈ tables.rows.keys ∧ other ∉ [key] := by
        intro other
        rw [Finmap.mem_keys_iff, Finmap.mem_keys_iff, hlookup, List.mem_singleton]
        split
        · rename_i heq
          simp [heq]
        · rename_i hne
          simp [hne]
      refine ⟨?_, ?_, ?_, ?_⟩
      · intro other hother
        change (tables.rows.erase key).lookup other = _
        rw [hlookup, if_neg (Finset.notMem_singleton.1 hother)]
        rfl
      · intro shard hshard
        exact Function.update_of_ne (Finset.notMem_singleton.1 hshard) _ _
      · intro other hother
        refine (hkeys other).trans (and_iff_left ?_)
        rw [List.mem_singleton]
        rintro rfl
        exact hother (Finset.mem_singleton_self _)
      · intro shard hexact
        refine hexact.shrunk (List.nodup_singleton key) ?_ hkeys ?_
        · intro other hother
          rw [List.mem_singleton.1 hother]
          exact Finmap.mem_keys_iff.2 ⟨row, hrow⟩
        · have hledger := rowCount_update tables.shards (capacityShard key) shard
            ⟨(tables.shards (capacityShard key)).rowCount - 1, (tables.shards (capacityShard key)).observedAtMs⟩
          rw [List.map_singleton, List.count_singleton]
          refine (congrArg (· + _) hledger).trans ?_
          change _ = (tables.shards shard).rowCount
          by_cases hshard : shard = capacityShard key
          · rw [if_pos hshard, hshard, beq_self_eq_true, if_pos rfl]
            change (tables.shards (capacityShard key)).rowCount - 1 + 1 = _
            omega
          · rw [if_neg hshard, if_neg (by simpa using Ne.symm hshard), Nat.add_zero]

/-- A statement that changes rows one after the other counts each. -/
theorem foldlM_counted {α ε : Type} {step : GcraTables → α → Except ε GcraTables} {keyOf : α → CounterKey}
    (hstep : ∀ {tables tables' : GcraTables} {a : α}, step tables a = .ok tables' →
      Counted tables tables' {keyOf a} {capacityShard (keyOf a)}) :
    ∀ {l : List α} {tables tables' : GcraTables}, l.foldlM step tables = .ok tables' →
      Counted tables tables' (l.map keyOf).toFinset (l.map fun a => capacityShard (keyOf a)).toFinset := by
  intro l
  induction l with
  | nil =>
    intro tables tables' h
    cases h
    exact Counted.refl _
  | cons a rest ih =>
    intro tables tables' h
    rw [List.foldlM_cons] at h
    obtain ⟨middle, hmiddle, h⟩ := except_bind_eq_ok.1 h
    rw [List.map_cons, List.toFinset_cons, List.map_cons, List.toFinset_cons, Finset.insert_eq, Finset.insert_eq]
    -- what the first row and the rest touch, together
    exact (hstep hmiddle).trans (ih h)

/-- A time is no count. -/
theorem setObserved_counted (shards : List CapacityShard) (now : ℕ) (tables : GcraTables) :
    Counted tables (setObserved shards now tables) ∅ shards.toFinset := by
  refine ⟨fun _ _ => rfl, ?_, fun _ _ => Iff.rfl, ?_⟩
  · intro shard hshard
    exact if_neg fun hmem => hshard (List.mem_toFinset.2 hmem)
  · intro shard hexact
    have hcount : ((setObserved shards now tables).store.ledger shard).rowCount = (tables.shards shard).rowCount := by
      change (if shard ∈ shards then _ else _ : LedgerRow).rowCount = _
      split
      · rfl
      · rfl
    refine ⟨?_, ?_⟩
    · rw [hcount]
      exact hexact.count_eq
    · rw [hcount]
      exact hexact.count_le

/-! ## Statements -/

section Statements

variable [Sha2] {w w' : World} {i j : ℕ} {session session' : Session}

/-- The next lock or statement of an admission, phase by phase. -/
inductive Advances (w : World) (i sample : ℕ) (session : Session) (config : PostgresConfig)
    (request : Request GcraPolicy) : AdmissionPhase → Session → Prop
  | lockShard {shard : CapacityShard} {todo : List CapacityShard} (hfree : w.free i (.ledger shard) = true) :
    Advances w i sample session config request (.shardLocks (shard :: todo))
      { session with
        txn := session.txn.lock ∅ {shard} w.committed
        program := .admission config request (.shardLocks todo) }
  | sampled :
    Advances w i sample session config request (.shardLocks [])
      { session with
        program := .admission config request
          (orFailed ((readLedger (view w session) (lockedShards request.checks) sample).map .reading)) }
  | read {now : ℕ} :
    Advances w i sample session config request (.reading now)
      { session with
        program := .admission config request (orFailed (evaluated config request now (view w session))) }
  | upserted {now : ℕ} {entries : List (CounterKey × GcraRow)} {response : PgResponse} {tables : GcraTables}
      (hfree : ∀ entry ∈ entries, w.free i (.row entry.1) = true ∧ w.free i (.ledger (capacityShard entry.1)) = true)
      (hupsert : entries.foldlM upsertRow (view w session) = .ok tables) :
    Advances w i sample session config request (.upsert now entries response)
      { session with
        txn := session.txn.write (entries.map Prod.fst).toFinset
          (entries.map fun entry => capacityShard entry.1).toFinset tables.store
        program := .admission config request (.observing now response) }
  | upsertFailed {now : ℕ} {entries : List (CounterKey × GcraRow)} {response : PgResponse} (error : PgCheckError) :
    Advances w i sample session config request (.upsert now entries response)
      { session with program := .admission config request (.failed error) }
  | observed {now : ℕ} {response : PgResponse}
      (hfree : ∀ shard ∈ lockedShards request.checks, w.free i (.ledger shard) = true) :
    Advances w i sample session config request (.observing now response)
      { session with
        txn := session.txn.write ∅ (lockedShards request.checks).toFinset
          (setObserved (lockedShards request.checks) now (view w session)).store
        program := .admission config request (.allowed response) }

/-- Nothing else happens when an admission advances. -/
theorem advanceAdmission_advances {sample : ℕ} {config : PostgresConfig} {request : Request GcraPolicy}
    {phase : AdmissionPhase} (h : advanceAdmission w i sample session config request phase = some session') :
    Advances w i sample session config request phase session' := by
  unfold advanceAdmission at h
  split at h
  · split at h
    · rename_i hfree
      cases h
      exact Advances.lockShard hfree
    · cases h
  · cases h
    exact Advances.sampled
  · cases h
    exact Advances.read
  · split at h
    · rename_i hfree
      split at h
      · rename_i tables hupsert
        split at h
        · cases h
          exact Advances.upsertFailed _
        · cases h
          exact Advances.upserted hfree hupsert
      · cases h
        exact Advances.upsertFailed _
    · cases h
  · split at h
    · rename_i hfree
      cases h
      exact Advances.observed hfree
    · cases h
  · cases h
  · cases h
  · cases h

/-- What a statement does to the locks and the versions of its session. -/
abbrev Changes (w : World) (i : ℕ) (session session' : Session) : Prop :=
  Ledger.Changes LedgerRow.rowCount capacityShard hardMaxRowsPerShard (fun _ _ => True) w i session session'

/-- Taking the lock of a ledger row changes no version. -/
theorem changes_lockShard {shard : CapacityShard} (hadvisory : session'.advisory = session.advisory)
    (htxn : session'.txn = session.txn.lock ∅ {shard} w.committed) (hfree : w.free i (.ledger shard) = true) :
    Changes w i session session' := by
  refine Ledger.Changes.locked hadvisory htxn ?_ ?_
  · intro key hkey
    cases hkey
  · intro shard' hshard
    rw [Finset.mem_singleton.1 hshard]
    exact hfree

/-- A statement that writes rows one after the other. -/
theorem changes_wrote {α : Type} {l : List α} {keyOf : α → CounterKey} {tables : GcraTables}
    (hadvisory : session'.advisory = session.advisory)
    (htxn : session'.txn = session.txn.write (l.map keyOf).toFinset
      (l.map fun a => capacityShard (keyOf a)).toFinset tables.store)
    (hfree : ∀ a ∈ l, w.free i (.row (keyOf a)) = true ∧ w.free i (.ledger (capacityShard (keyOf a))) = true)
    (hcounted : Counted (view w session) tables (l.map keyOf).toFinset
      (l.map fun a => capacityShard (keyOf a)).toFinset) : Changes w i session session' := by
  refine Ledger.Changes.wrote hadvisory htxn ?_ ?_ hcounted fun _ _ => Or.inr trivial
  · intro key hkey
    obtain ⟨a, ha, rfl⟩ := List.mem_map.1 (List.mem_toFinset.1 hkey)
    exact (hfree a ha).1
  · intro shard hshard
    obtain ⟨a, ha, rfl⟩ := List.mem_map.1 (List.mem_toFinset.1 hshard)
    exact (hfree a ha).2

/-- A statement that writes the time of some shards. -/
theorem changes_observed {shards : List CapacityShard} {now : ℕ} (hadvisory : session'.advisory = session.advisory)
    (htxn : session'.txn = session.txn.write ∅ shards.toFinset (setObserved shards now (view w session)).store)
    (hfree : ∀ shard ∈ shards, w.free i (.ledger shard) = true) : Changes w i session session' := by
  refine Ledger.Changes.wrote hadvisory htxn ?_ ?_ (setObserved_counted shards now (view w session)) fun _ _ => Or.inr trivial
  · intro key hkey
    cases hkey
  · intro shard hshard
    exact hfree shard (List.mem_toFinset.1 hshard)

theorem Advances.changes {sample : ℕ} {config : PostgresConfig} {request : Request GcraPolicy} {phase : AdmissionPhase}
    (h : Advances w i sample session config request phase session') : Changes w i session session' := by
  cases h with
  | lockShard hfree => exact changes_lockShard rfl rfl hfree
  | sampled => exact Ledger.Changes.quiet rfl rfl
  | read => exact Ledger.Changes.quiet rfl rfl
  | upserted hfree hupsert =>
    exact changes_wrote rfl rfl hfree (foldlM_counted (fun h => upsertRow_counted h) hupsert)
  | upsertFailed error => exact Ledger.Changes.quiet rfl rfl
  | observed hfree => exact changes_observed rfl rfl hfree

/-- A `DELETE` locks the rows it deletes and the ledger rows its trigger counts in. -/
theorem deleting_changes {keys : List CounterKey} {program : Program}
    (h : deleting w i keys session program = some session') : Changes w i session session' := by
  unfold deleting at h
  split at h
  · rename_i hfree
    split at h
    · rename_i tables hdelete
      cases h
      refine changes_wrote rfl ?_ hfree (foldlM_counted (fun h => deleteRow_counted h) hdelete)
      rw [List.map_id']
    · cases h
  · cases h

/-- **Every statement counts.** -/
theorem execute_changes {responseNow : ℕ} {statement : Statement}
    (h : programs.execute w i responseNow session statement = some session') : Changes w i session session' := by
  change execute w i responseNow session statement = _ at h
  unfold execute at h
  split at h
  · split at h
    · exact (advanceAdmission_advances h).changes
    · cases h
  · unfold lockShard at h
    split at h
    · split at h
      · rename_i hready
        cases h
        exact changes_lockShard rfl rfl hready.2
      · cases h
    · cases h
  · unfold advanceTime at h
    split at h
    · split at h
      · rename_i hfree
        cases h
        exact changes_observed rfl rfl hfree
      · cases h
    · cases h
  · unfold runDelete at h
    split at h
    · split at h
      · exact deleting_changes h
      · cases h
    · exact deleting_changes h
    · cases h
  · unfold runInsert at h
    split at h
    · split at h
      · rename_i hfree
        split at h
        · rename_i tables hinsert
          cases h
          exact changes_wrote rfl rfl hfree (foldlM_counted (fun h => upsertRow_counted h) hinsert)
        · cases h
      · cases h
    · cases h

/-- **The sessions of the GCRA limiter lock what they write, and count it.** -/
theorem programs_lawful :
    Lawful LedgerRow.rowCount capacityShard hardMaxRowsPerShard (fun _ _ => True) (fun _ => True) programs where
  opens _ := trivial
  changes _ h := execute_changes h
  good _ _ := trivial
  names _ _ := trivial

end Statements

/-! ## The room of an admission -/

section Room

variable [Sha2] {checks : List (Check GcraPolicy)} {shard : CapacityShard}

/-- The checks of a shard that have no row. -/
def rowless (tables : GcraTables) (checks : List (Check GcraPolicy)) (shard : CapacityShard) : ℕ :=
  checks.countP fun c => (tables.rows.lookup c.counterKey).isNone && decide (capacityShard c.counterKey = shard)

omit [Sha2] in
/-- The rows of an `INSERT` that a shard does not have yet. -/
def added (tables : GcraTables) (entries : List (CounterKey × GcraRow)) (shard : CapacityShard) : ℕ :=
  entries.countP fun entry => (tables.rows.lookup entry.1).isNone && decide (capacityShard entry.1 = shard)

/-- The loop of `evaluate` allows a batch only if its new rows fit. -/
theorem evaluateFrom_room {maximum now : ℕ} : ∀ {checks : List (Check GcraPolicy)} {index : ℕ}
    {counts : CapacityShard → ℕ} {denial : Option Admission} {pending result : List Gcra.PendingAllowance},
    evaluateFrom maximum now index (checks.zip (checks.map fun c => tables.rows.lookup c.counterKey)) counts denial
        pending = .ok (.allowed result) →
    ∀ shard, rowless tables checks shard = 0 ∨ counts shard + rowless tables checks shard ≤ maximum := by
  intro checks
  induction checks with
  | nil =>
    intro index counts denial pending result h shard
    exact Or.inl rfl
  | cons c rest ih =>
    intro index counts denial pending result h shard
    have hcons : rowless tables (c :: rest) shard = rowless tables rest shard +
        if (tables.rows.lookup c.counterKey).isNone = true ∧ capacityShard c.counterKey = shard then 1 else 0 := by
      unfold rowless
      rw [List.countP_cons]
      simp only [Bool.and_eq_true, decide_eq_true_eq]
    rw [List.map_cons, List.zip_cons_cons] at h
    unfold evaluateFrom at h
    obtain ⟨stored, hstored, h⟩ := except_bind_eq_ok.1 h
    rw [storedCounter_ok hstored] at h
    cases hev : Gcra.evaluate c now (activeTat now (tables.rows.lookup c.counterKey)) with
    | error e =>
      simp only [hev] at h
      cases h
    | ok evaluation =>
      simp only [hev] at h
      cases evaluation with
      | denied quota =>
        -- the first denial is kept to the end of the loop
        obtain ⟨hdenial, -⟩ := evaluateFrom_allowed h
        cases denial with
        | none => cases hdenial
        | some denial => cases hdenial
      | allowed allowance =>
        simp only at h
        split at h
        · rename_i hnone
          obtain ⟨hdenial, -⟩ := evaluateFrom_allowed h
          -- a full shard would have made a denial, and denials are kept
          have hroom : counts (capacityShard c.counterKey) < maximum := by
            by_contra hfull
            rw [if_pos (Nat.le_of_not_lt hfull)] at hdenial
            cases denial with
            | none => cases hdenial
            | some denial => cases hdenial
          have hrest := ih h shard
          rw [hcons]
          by_cases hshard : capacityShard c.counterKey = shard
          · subst hshard
            rw [Function.update_self] at hrest
            rw [if_pos ⟨hnone, rfl⟩]
            omega
          · rw [Function.update_of_ne (Ne.symm hshard)] at hrest
            rw [if_neg fun h => hshard h.2]
            exact hrest
        · rename_i hsome
          rw [hcons, if_neg fun h => hsome h.1]
          exact ih h shard

/-- The rows of a batch are those of its checks. -/
theorem added_written_le (tables : GcraTables) (shard : CapacityShard) : ∀ (checks : List (Check GcraPolicy))
    (allowances : List Gcra.PendingAllowance),
    added tables (written checks allowances) shard ≤ rowless tables checks shard := by
  intro checks
  induction checks with
  | nil => exact fun _ => Nat.le_refl 0
  | cons c rest ih =>
    intro allowances
    cases allowances with
    | nil => exact Nat.zero_le _
    | cons allowance allowances =>
      have hrest := ih allowances
      unfold added rowless written at hrest ⊢
      rw [List.zipWith_cons_cons, List.countP_cons, List.countP_cons]
      exact Nat.add_le_add_right hrest _

/-- The rows that a batch writes are in the shards it has locked. -/
theorem mem_lockedShards_of_written {allowances : List Gcra.PendingAllowance} {entry : CounterKey × GcraRow}
    (h : entry ∈ written checks allowances) : capacityShard entry.1 ∈ lockedShards checks := by
  unfold written at h
  obtain ⟨n, hn⟩ := List.mem_iff_getElem?.1 h
  obtain ⟨c, allowance, hc, -, rfl⟩ := List.getElem?_zipWith_eq_some.1 hn
  exact mem_lockedShards.2 ⟨c, List.mem_of_getElem? hc, rfl⟩

omit [Sha2] in
/-- An `INSERT` adds the rows that were not there. -/
theorem upsert_rowCount_le : ∀ {entries : List (CounterKey × GcraRow)} {tables tables' : GcraTables},
    entries.foldlM upsertRow tables = .ok tables' → ∀ shard,
    (tables'.shards shard).rowCount ≤ (tables.shards shard).rowCount + added tables entries shard := by
  intro entries
  induction entries with
  | nil =>
    intro tables tables' h shard
    cases h
    exact Nat.le_refl _
  | cons entry rest ih =>
    intro tables tables' h shard
    rw [List.foldlM_cons] at h
    obtain ⟨middle, hmiddle, h⟩ := except_bind_eq_ok.1 h
    have hrest := ih h shard
    -- a row that is there now was there before, or is the one just added
    have hadded : added middle rest shard ≤ added tables rest shard := by
      refine List.countP_mono_left fun other _ hother => ?_
      rw [Bool.and_eq_true, (upsertRow_ok hmiddle).1, Finmap.lookup_insert_if] at hother
      rw [Bool.and_eq_true]
      refine ⟨?_, hother.2⟩
      by_cases hkey : other.1 = entry.1
      · rw [if_pos hkey] at hother
        cases hother.1
      · rw [if_neg hkey] at hother
        exact hother.1
    have hcons : added tables (entry :: rest) shard = added tables rest shard +
        if (tables.rows.lookup entry.1).isNone = true ∧ capacityShard entry.1 = shard then 1 else 0 := by
      unfold added
      rw [List.countP_cons]
      simp only [Bool.and_eq_true, decide_eq_true_eq]
    rw [hcons]
    unfold upsertRow at hmiddle
    split at hmiddle
    · rename_i row hrow
      cases hmiddle
      -- a row that was there adds nothing
      rw [if_neg fun h => by rw [hrow] at h; cases h.1]
      simp only at hrest
      omega
    · rename_i hnone
      simp only at hmiddle
      split at hmiddle
      · cases hmiddle
      · cases hmiddle
        rw [rowCount_update] at hrest
        rw [hnone]
        by_cases hshard : capacityShard entry.1 = shard
        · subst hshard
          rw [if_pos rfl] at hrest
          rw [if_pos ⟨rfl, rfl⟩]
          simp only at hrest
          omega
        · rw [if_neg (Ne.symm hshard)] at hrest
          rw [if_neg fun h => hshard h.2]
          omega

end Room

/-! ## What an admission relies on -/

section Kept

variable [Sha2] {w w' : World} {i j : ℕ} {session session' : Session} {committed committed' : GcraStore} {txn : GcraTxn}
  {config : PostgresConfig} {request : Request GcraPolicy} {phase : AdmissionPhase}

/-- The new rows of a batch fit. -/
def Fits (config : PostgresConfig) (tables : GcraTables) (entries : List (CounterKey × GcraRow)) : Prop :=
  ∀ shard, added tables entries shard = 0 ∨
    (tables.shards shard).rowCount + added tables entries shard ≤ config.maximumRowsPerShard

/-- What an admission will commit overfills no shard. -/
def Bounded (config : PostgresConfig) (committed : GcraStore) (txn : GcraTxn) : Prop :=
  ∀ shard, ((txn.view committed).ledger shard).rowCount ≤
    max config.maximumRowsPerShard (committed.ledger shard).rowCount

/-- What an admission may rely on, at each phase. -/
def AdmissionPhase.Kept (committed : GcraStore) (txn : GcraTxn) (config : PostgresConfig) (request : Request GcraPolicy) :
    AdmissionPhase → Prop
  | .shardLocks todo => txn.view committed = committed ∧
      ∀ shard ∈ lockedShards request.checks, shard ∈ txn.shards ∨ shard ∈ todo
  | .reading _ => txn.view committed = committed ∧ ∀ shard ∈ lockedShards request.checks, shard ∈ txn.shards
  | .upsert _ entries _ => txn.view committed = committed ∧ (∀ entry ∈ entries, capacityShard entry.1 ∈ txn.shards) ∧
      Fits config (GcraStore.tables committed) entries
  | .observing _ _ => Bounded config committed txn
  | .allowed _ => Bounded config committed txn
  | .denied _ => True
  | .failed _ => True

/-- What an admission does with the counters it has read. -/
theorem evaluated_ok {now : ℕ} {tables : GcraTables} {phase : AdmissionPhase}
    (h : evaluated config request now tables = .ok phase) :
    (∃ response, phase = .denied response) ∨
      ∃ entries response, phase = .upsert now entries response ∧
        (∀ entry ∈ entries, capacityShard entry.1 ∈ lockedShards request.checks) ∧ Fits config tables entries := by
  unfold evaluated at h
  obtain ⟨pending, hpending, h⟩ := except_bind_eq_ok.1 h
  cases pending with
  | denied admission =>
    obtain ⟨response, -, h⟩ := except_bind_eq_ok.1 h
    cases h
    exact Or.inl ⟨response, rfl⟩
  | allowed allowances =>
    obtain ⟨entries, hentries, h⟩ := except_bind_eq_ok.1 h
    obtain ⟨response, -, h⟩ := except_bind_eq_ok.1 h
    cases h
    obtain ⟨rfl, -⟩ := upsertRows_ok hentries
    refine Or.inr ⟨_, response, rfl, fun entry hentry => mem_lockedShards_of_written hentry, fun shard => ?_⟩
    -- the ledger was read for the shards of the batch; elsewhere nothing is added
    have hroom := evaluateFrom_room hpending shard
    have hadded := added_written_le tables shard request.checks allowances
    by_cases hshard : shard ∈ lockedShards request.checks
    · rw [if_pos hshard] at hroom
      omega
    · -- no check of the batch has this shard
      have hnone : rowless tables request.checks shard = 0 := by
        unfold rowless
        rw [List.countP_eq_zero]
        intro c hc hrow
        rw [Bool.and_eq_true, decide_eq_true_iff] at hrow
        exact hshard (mem_lockedShards.2 ⟨c, hc, hrow.2⟩)
      omega

/-- **The statements of an admission keep what it relies on.** -/
theorem Advances.kept {sample : ℕ} (h : Advances w i sample session config request phase session')
    (hkept : phase.Kept w.committed session.txn config request) :
    ∃ phase', session'.program = .admission config request phase' ∧
      phase'.Kept w.committed session'.txn config request := by
  have hview : session.txn.view w.committed = w.committed → view w session = GcraStore.tables w.committed := by
    intro hclean
    unfold view
    rw [hclean]
  cases h with
  | @lockShard shard todo hfree =>
    -- one shard moves from the locks to take to the locks held
    obtain ⟨hclean, hshards⟩ := hkept
    refine ⟨_, rfl, (Txn.view_lock _ _ _ _).trans hclean, fun other hother => ?_⟩
    exact held_or_left (hshards other hother)
  | sampled =>
    -- all shards of the batch are locked before a counter is read
    obtain ⟨hclean, hshards⟩ := hkept
    refine ⟨_, rfl, ?_⟩
    cases readLedger (view w session) (lockedShards request.checks) sample with
    | error error => exact trivial
    | ok now =>
      refine ⟨hclean, fun shard hshard => ?_⟩
      rcases hshards shard hshard with hlocked | htodo
      · exact hlocked
      · cases htodo
  | @read now =>
    obtain ⟨hclean, hshards⟩ := hkept
    refine ⟨_, rfl, ?_⟩
    rw [hview hclean]
    cases hevaluated : evaluated config request now (GcraStore.tables w.committed) with
    | error error => exact trivial
    | ok phase =>
      rcases evaluated_ok hevaluated with ⟨response, rfl⟩ | ⟨entries, response, rfl, hlocked, hfits⟩
      · exact trivial
      · exact ⟨hclean, fun entry hentry => hshards _ (hlocked entry hentry), hfits⟩
  | @upserted now entries response tables hfree hupsert =>
    -- the room found at the reading bounds what the upsert counts
    obtain ⟨hclean, hlocked, hfits⟩ := hkept
    refine ⟨_, rfl, fun shard => ?_⟩
    rw [Txn.view_wrote (foldlM_counted (fun h => upsertRow_counted h) hupsert)]
    rw [hview hclean] at hupsert
    have hle := upsert_rowCount_le hupsert shard
    change (tables.shards shard).rowCount ≤ max _ ((GcraStore.tables w.committed).shards shard).rowCount
    rcases hfits shard with hnone | hroom
    · omega
    · omega
  | upsertFailed error => exact ⟨_, rfl, trivial⟩
  | @observed now response hfree =>
    refine ⟨_, rfl, fun shard => ?_⟩
    rw [Txn.view_wrote (setObserved_counted (lockedShards request.checks) now (view w session))]
    -- the observed time is written beside the counts
    have hsame : ((setObserved (lockedShards request.checks) now (view w session)).store.ledger shard).rowCount =
        ((session.txn.view w.committed).ledger shard).rowCount := by
      change (if shard ∈ lockedShards request.checks then _ else _ : LedgerRow).rowCount = _
      split
      · rfl
      · rfl
    rw [hsame]
    exact hkept shard

/-- **No commit of another session takes it away.** -/
theorem AdmissionPhase.Kept.undisturbed (hkept : phase.Kept committed txn config request)
    (h : Undisturbed capacityShard committed committed' txn) : phase.Kept committed' txn config request := by
  -- the counts of locked shards stay; the others the admission will not write
  have hbounded : Bounded config committed txn → Bounded config committed' txn := by
    intro hbounded shard
    have hshard := hbounded shard
    rw [Txn.view_ledger] at hshard ⊢
    split
    · rename_i hmem
      rw [if_pos hmem] at hshard
      rw [h.shards shard hmem]
      exact hshard
    · exact Nat.le_max_right _ _
  cases phase with
  | shardLocks todo => exact ⟨h.clean hkept.1, hkept.2⟩
  | reading now => exact ⟨h.clean hkept.1, hkept.2⟩
  | upsert now entries response =>
    obtain ⟨hclean, hlocked, hfits⟩ := hkept
    refine ⟨h.clean hclean, hlocked, fun shard => ?_⟩
    -- which rows are new is the same, since their shards are locked
    have hadded : added (GcraStore.tables committed') entries shard = added (GcraStore.tables committed) entries shard := by
      refine List.countP_congr fun entry hentry => ?_
      have hkeys := h.keys entry.1 (hlocked entry hentry)
      have hnone : committed'.rows.lookup entry.1 = none ↔ committed.rows.lookup entry.1 = none := by
        rw [← Finmap.notMem_keys_iff, ← Finmap.notMem_keys_iff, hkeys]
      rw [Bool.and_eq_true, Bool.and_eq_true, Option.isNone_iff_eq_none, Option.isNone_iff_eq_none]
      exact and_congr_left fun _ => hnone
    by_cases hshard : shard ∈ txn.shards
    · have hledger : (GcraStore.tables committed').shards shard = (GcraStore.tables committed).shards shard :=
        h.shards shard hshard
      rw [hadded, hledger]
      exact hfits shard
    · left
      unfold added
      rw [List.countP_eq_zero]
      intro entry hentry hrow
      rw [Bool.and_eq_true, decide_eq_true_iff] at hrow
      exact hshard (hrow.2 ▸ hlocked entry hentry)
  | observing now response => exact hbounded hkept
  | allowed response => exact hbounded hkept
  | denied response => exact trivial
  | failed error => exact trivial

/-- What every interleaving keeps. -/
structure Orderly (w : World) : Prop where
  orderly : Ledger.Orderly LedgerRow.rowCount capacityShard hardMaxRowsPerShard (fun _ _ => True) (fun _ => True) w
  kept : ∀ i session config request phase, w.sessions.lookup i = some session →
    session.program = .admission config request phase → phase.Kept w.committed session.txn config request

/-- The only statements of an admission are its own. -/
theorem execute_admission {responseNow : ℕ} {statement : Statement}
    (h : programs.execute w i responseNow session statement = some session')
    (hprogram : session.program = .admission config request phase) :
    ∃ sample, Advances w i sample session config request phase session' := by
  change execute w i responseNow session statement = _ at h
  unfold execute at h
  split at h
  · rename_i sample
    rw [hprogram] at h
    exact ⟨sample, advanceAdmission_advances h⟩
  · unfold lockShard at h
    rw [hprogram] at h
    cases h
  · unfold advanceTime at h
    rw [hprogram] at h
    cases h
  · unfold runDelete at h
    rw [hprogram] at h
    cases h
  · unfold runInsert at h
    rw [hprogram] at h
    cases h

/-- The batch of an admission is the one it began with. -/
theorem Advances.batch {sample : ℕ} {config' : PostgresConfig} {request' : Request GcraPolicy} {phase' : AdmissionPhase}
    (h : Advances w i sample session config request phase session')
    (hprogram : session'.program = .admission config' request' phase') : config' = config ∧ request' = request := by
  cases h with
  | lockShard hfree =>
    cases hprogram
    exact ⟨rfl, rfl⟩
  | sampled =>
    cases hprogram
    exact ⟨rfl, rfl⟩
  | read =>
    cases hprogram
    exact ⟨rfl, rfl⟩
  | upserted hfree hupsert =>
    cases hprogram
    exact ⟨rfl, rfl⟩
  | upsertFailed error =>
    cases hprogram
    exact ⟨rfl, rfl⟩
  | observed hfree =>
    cases hprogram
    exact ⟨rfl, rfl⟩

/-- A `DELETE` ends in the phase it was given. -/
theorem deleting_program {keys : List CounterKey} {program : Program}
    (h : deleting w i keys session program = some session') : session'.program = program := by
  unfold deleting at h
  split at h
  · split at h
    · cases h
      rfl
    · cases h
  · cases h

/-- A statement of an admission is one of the same batch. -/
theorem execute_batch {responseNow : ℕ} {statement : Statement}
    (h : programs.execute w i responseNow session statement = some session')
    (hprogram : session'.program = .admission config request phase) :
    ∃ phase', session.program = .admission config request phase' := by
  change execute w i responseNow session statement = _ at h
  unfold execute at h
  split at h
  · split at h
    · rename_i config' request' phase' hsession
      -- the other statements belong to other programs
      obtain ⟨rfl, rfl⟩ := (advanceAdmission_advances h).batch hprogram
      exact ⟨phase', hsession⟩
    · cases h
  · unfold lockShard at h
    split at h
    · split at h
      · cases h
        cases hprogram
      · cases h
    · cases h
  · unfold advanceTime at h
    split at h
    · split at h
      · cases h
        cases hprogram
      · cases h
    · cases h
  · unfold runDelete at h
    split at h
    · split at h
      · rw [deleting_program h] at hprogram
        cases hprogram
      · cases h
    · rw [deleting_program h] at hprogram
      cases hprogram
    · cases h
  · unfold runInsert at h
    split at h
    · split at h
      · split at h
        · cases h
          cases hprogram
        · cases h
      · cases h
    · cases h

/-- **A move leaves an orderly database.** -/
theorem Orderly.acts {move : Move} {occurrence : Occurrence Report} (hw : Orderly w)
    (h : Acts programs w move occurrence w') : Orderly w' := by
  refine ⟨programs_lawful.orderly h hw.orderly, ?_⟩
  intro i session config request phase hsession hprogram
  cases h with
  | @opened j what program hnew hopens =>
    -- a new admission has all its shards to lock, and has written nothing
    rw [Finmap.lookup_insert_if] at hsession
    split at hsession
    · cases hsession
      cases what with
      | admission config' request' =>
        simp only [programs, opens] at hopens
        split at hopens
        · cases hopens
          cases hprogram
          exact ⟨Txn.view_new _, fun shard hshard => Or.inr hshard⟩
        · cases hopens
      | cleanup maximumRows sample =>
        cases hopens
        cases hprogram
      | other =>
        cases hopens
        cases hprogram
    · exact hw.kept i session config request phase hsession hprogram
  | @ran j responseNow statement other other' hother hexecute hnow =>
    rw [Finmap.lookup_insert_if] at hsession
    split at hsession
    · cases hsession
      obtain ⟨phase', hprogram'⟩ := execute_batch hexecute hprogram
      obtain ⟨sample, hadvances⟩ := execute_admission hexecute hprogram'
      obtain ⟨phase'', hsame, hkept⟩ := hadvances.kept (hw.kept j other config request phase' hother hprogram')
      rw [hprogram] at hsame
      cases hsame
      exact hkept
    · exact hw.kept i session config request phase hsession hprogram
  | @committed j other _ hother hreported =>
    -- the only move that changes what others read
    obtain ⟨hne, hsession⟩ := lookup_of_erase hsession
    exact (hw.kept i session config request phase hsession hprogram).undisturbed
      (hw.orderly.undisturbed hne hother hsession)
  | @aborted j other hother =>
    exact hw.kept i session config request phase (lookup_of_erase hsession).2 hprogram

/-- Before the first session nothing is locked. -/
theorem orderly_start {store : GcraStore}
    (h : ∀ shard, store.ExactAt LedgerRow.rowCount capacityShard hardMaxRowsPerShard shard) :
    Orderly (World.start store) := by
  refine ⟨Ledger.Orderly.start h, ?_⟩
  intro i session config request phase hsession
  rw [show (World.start store).sessions = ∅ from rfl, Finmap.lookup_empty] at hsession
  cases hsession

omit [Sha2] in
/-- The migration leaves no rows and no counts. -/
theorem migrated_exact (shard : CapacityShard) :
    migrated.store.ExactAt LedgerRow.rowCount capacityShard hardMaxRowsPerShard shard :=
  ⟨rfl, Nat.zero_le _⟩

/-- **Every interleaving leaves an orderly database.** -/
theorem interleaved_orderly (moves : List Move) : Orderly (interleaved moves) :=
  @interleaved_inv _ _ _ _ _ _ _ _ _ _ _ _ (fun _ => True) _ (fun _ hacts hw => hw.acts hacts) _
    (orderly_start migrated_exact) moves fun _ _ => trivial

end Kept

end PgGcra

end Runlimit
