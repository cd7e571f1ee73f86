import Runlimit.Proof.Triggers

/-!
# What the sessions of the durable fixed windows do

`Executes` says what each statement of a session does, program by program. From it: a statement takes only locks
that no other session holds, counts what it writes, and inserts only keys that its program names
(`programs_lawful`), so that every interleaving leaves the database in order.
-/

namespace Runlimit

open Ledger

namespace PgWindows

variable [Sha2] {w w' : World} {i j : ℕ} {session session' : Session}

/-! ## Statements -/

/-- The next lock or statement of an admission, phase by phase. -/
inductive Advances (w : World) (i responseNow : ℕ) (session : Session) (config : PostgresConfig)
    (checks : List (Check FixedWindowPolicy)) : AdmissionPhase → Session → Prop
  | lockId {id : ℤ} {todo : List ℤ} (hfree : w.free i (.advisory id) = true) :
    Advances w i responseNow session config checks (.advisoryLocks (id :: todo))
      { session with
        advisory := insert id session.advisory
        program := .admission config checks (.advisoryLocks todo) }
  | findRows :
    Advances w i responseNow session config checks (.advisoryLocks [])
      { session with program := .admission config checks (.rowLocks (existingRows (view w session) checks)) }
  | skipRow {key : CounterKey} {todo : List CounterKey} (hgone : (view w session).rows.lookup key = none) :
    Advances w i responseNow session config checks (.rowLocks (key :: todo))
      { session with program := .admission config checks (.rowLocks todo) }
  | lockRow {key : CounterKey} {todo : List CounterKey} (hpresent : (view w session).rows.lookup key ≠ none)
      (hfree : w.free i (.row key) = true) :
    Advances w i responseNow session config checks (.rowLocks (key :: todo))
      { session with
        txn := session.txn.lock {key} ∅ w.committed
        program := .admission config checks (.rowLocks todo) }
  | findMissing :
    Advances w i responseNow session config checks (.rowLocks [])
      { session with
        program := .admission config checks (.capacityLocks (missingKeys (view w session) checks)
          (insertedShards (view w session) checks)) }
  | lockShard {missing : List (ℕ × CapacityShard)} {shard : CapacityShard} {todo : List CapacityShard}
      (hfree : w.free i (.ledger shard) = true) :
    Advances w i responseNow session config checks (.capacityLocks missing (shard :: todo))
      { session with
        txn := session.txn.lock ∅ {shard} w.committed
        program := .admission config checks (.capacityLocks missing todo) }
  | readCapacity {missing : List (ℕ × CapacityShard)} :
    Advances w i responseNow session config checks (.capacityLocks missing [])
      { session with
        program := .admission config checks (orFailed .preflight
          (firstCapacityDenial (checks.map fun check => capacityShard check.counterKey) config.maximumRowsPerShard
            (fun _ => 0) (capacityRows missing (view w session).rowCounts))) }
  | preflight {capacityDenial : Option (ℕ × PendingDenial)} :
    Advances w i responseNow session config checks (.preflight capacityDenial)
      { session with
        program := .admission config checks
          (orFailed (afterPreflight w.now responseNow capacityDenial) (preflightBatch (view w session) w.now checks)) }
  | upserted {databaseNow preflightResponse : ℕ} {allowances : List PendingAllowance} {writes : Writes}
      (hrows : ∀ c ∈ checks, w.free i (.row c.counterKey) = true)
      (hshards : ∀ shard ∈ insertedShards (view w session) checks, w.free i (.ledger shard) = true)
      (hupsert : upsertBatch (view w session) databaseNow checks = .ok (allowances, writes)) :
    Advances w i responseNow session config checks (.upsert databaseNow preflightResponse)
      { session with
        txn := session.txn.write (checks.map Check.counterKey).toFinset (insertedShards (view w session) checks).toFinset
          (writes.apply (view w session)).store
        program := .admission config checks (.allowed ⟨databaseNow, preflightResponse, responseNow⟩ allowances) }
  | upsertFailed {databaseNow preflightResponse : ℕ} {error : PgCheckError}
      (hupsert : upsertBatch (view w session) databaseNow checks = .error error) :
    Advances w i responseNow session config checks (.upsert databaseNow preflightResponse)
      { session with program := .admission config checks (.failed error) }

/-- **The statements of an admission**, phase by phase; one that has to wait does nothing. -/
theorem advanceAdmission_advances {responseNow : ℕ} {config : PostgresConfig} {checks : List (Check FixedWindowPolicy)}
    {phase : AdmissionPhase} (h : advanceAdmission w i responseNow session config checks phase = some session') :
    Advances w i responseNow session config checks phase session' := by
  unfold advanceAdmission at h
  split at h
  · split at h
    · rename_i hfree
      cases h
      exact Advances.lockId hfree
    · cases h
  · cases h
    exact Advances.findRows
  · split at h
    · -- a row that was deleted since it was found is not locked
      rename_i hgone
      cases h
      exact Advances.skipRow (Option.isNone_iff_eq_none.1 hgone)
    · rename_i hpresent
      split at h
      · rename_i hfree
        cases h
        exact Advances.lockRow (fun hnone => hpresent (Option.isNone_iff_eq_none.2 hnone)) hfree
      · cases h
  · cases h
    exact Advances.findMissing
  · split at h
    · rename_i hfree
      cases h
      exact Advances.lockShard hfree
    · cases h
  · cases h
    exact Advances.readCapacity
  · cases h
    exact Advances.preflight
  · simp only at h
    split at h
    · rename_i hfree
      split at h
      · rename_i hupsert
        cases h
        exact Advances.upserted hfree.1 hfree.2 hupsert
      · rename_i hupsert
        cases h
        exact Advances.upsertFailed hupsert
    · cases h
  · cases h
  · cases h
  · cases h

/-- The statement of a cleanup, phase by phase. -/
inductive Cleans (w : World) (i : ℕ) (session : Session) (maximumRows sampledAt : ℕ) :
    List CounterKey → CleanupPhase → Session → Prop
  | pick {picked : List CounterKey} {key : CounterKey} {row : WindowRow}
      (hrow : w.committed.rows.lookup key = some row) (hroom : picked.length < maximumRows)
      (hexpired : row.expiresAt ≤ sampledAt) (hnew : key ∉ picked) (hfree : w.free i (.row key) = true) :
    Cleans w i session maximumRows sampledAt picked .rowLocks
      { session with
        txn := session.txn.lock {key} ∅ w.committed
        program := .cleanup maximumRows sampledAt (picked ++ [key]) .rowLocks }
  | findShards {picked : List CounterKey} :
    Cleans w i session maximumRows sampledAt picked .rowLocks
      { session with
        program := .cleanup maximumRows sampledAt picked
          (.ledgerLocks ((picked.map capacityShard).insertionSort (· ≤ ·)).dedup) }
  | lockShard {picked : List CounterKey} {shard : CapacityShard} {todo : List CapacityShard}
      (hfree : w.free i (.ledger shard) = true) :
    Cleans w i session maximumRows sampledAt picked (.ledgerLocks (shard :: todo))
      { session with
        txn := session.txn.lock ∅ {shard} w.committed
        program := .cleanup maximumRows sampledAt picked (.ledgerLocks todo) }
  | delete {picked keys : List CounterKey} {session' : Session} (hpicked : ∀ key ∈ keys, key ∈ picked)
      (hdeleting : deleting w i keys session (.cleanup maximumRows sampledAt picked (.deleted keys)) = some session') :
    Cleans w i session maximumRows sampledAt picked (.ledgerLocks []) session'

/-- A statement of another writer. -/
inductive Modifies (w : World) (i : ℕ) (session : Session) (inserted : List CounterKey) : Session → Prop
  | delete {keys : List CounterKey} {session' : Session}
      (hdeleting : deleting w i keys session (.other inserted) = some session') :
    Modifies w i session inserted session'
  | insert {rows : List (CounterKey × WindowRow)} {writes : Writes} (hnodup : (rows.map Prod.fst).Nodup)
      (hrows : ∀ key ∈ rows.map Prod.fst, w.free i (.row key) = true)
      (hshards : ∀ key ∈ absentKeys (view w session) (rows.map Prod.fst), w.free i (.ledger (capacityShard key)) = true)
      (hinsert : insertRows rows (view w session) = .ok writes) :
    Modifies w i session inserted
      { session with
        txn := session.txn.write (rows.map Prod.fst).toFinset
          ((absentKeys (view w session) (rows.map Prod.fst)).map capacityShard).toFinset
          (writes.apply (view w session)).store
        program := .other (inserted ++ absentKeys (view w session) (rows.map Prod.fst)) }

/-- What a statement does, program by program. -/
inductive Executes (w : World) (i responseNow : ℕ) (session session' : Session) : Prop
  | admission {config : PostgresConfig} {checks : List (Check FixedWindowPolicy)} {phase : AdmissionPhase}
      (hprogram : session.program = .admission config checks phase)
      (hadvances : Advances w i responseNow session config checks phase session')
  | cleanup {maximumRows sampledAt : ℕ} {picked : List CounterKey} {phase : CleanupPhase}
      (hprogram : session.program = .cleanup maximumRows sampledAt picked phase)
      (hcleans : Cleans w i session maximumRows sampledAt picked phase session')
  | other {inserted : List CounterKey} (hprogram : session.program = .other inserted)
      (hmodifies : Modifies w i session inserted session')

/-- **Statements.** -/
theorem execute_executes {responseNow : ℕ} {statement : Statement}
    (h : execute w i responseNow session statement = some session') : Executes w i responseNow session session' := by
  unfold execute at h
  split at h
  · split at h
    · rename_i config checks phase hprogram
      exact Executes.admission hprogram (advanceAdmission_advances h)
    · cases h
  · unfold pickRow at h
    split at h
    · rename_i maximumRows sampledAt picked hprogram
      split at h
      · cases h
      · rename_i row hrow
        split at h
        · rename_i hready
          cases h
          exact Executes.cleanup hprogram (Cleans.pick hrow hready.1 hready.2.1 hready.2.2.1 hready.2.2.2)
        · cases h
    · cases h
  · unfold lockLedger at h
    split at h
    · rename_i hprogram
      cases h
      exact Executes.cleanup hprogram Cleans.findShards
    · rename_i hprogram
      split at h
      · rename_i hfree
        cases h
        exact Executes.cleanup hprogram (Cleans.lockShard hfree)
      · cases h
    · cases h
  · unfold runDelete at h
    split at h
    · rename_i hprogram
      split at h
      · rename_i hpicked
        exact Executes.cleanup hprogram (Cleans.delete hpicked h)
      · cases h
    · rename_i hprogram
      exact Executes.other hprogram (Modifies.delete h)
    · cases h
  · unfold runInsert at h
    split at h
    · rename_i hprogram
      simp only at h
      split at h
      · rename_i hready
        split at h
        · rename_i hinsert
          cases h
          exact Executes.other hprogram (Modifies.insert hready.1 hready.2.1 hready.2.2 hinsert)
        · cases h
      · cases h
    · cases h

/-- The only statements of an admission are its own. -/
theorem execute_admission {responseNow : ℕ} {statement : Statement} {config : PostgresConfig}
    {checks : List (Check FixedWindowPolicy)} {phase : AdmissionPhase}
    (h : execute w i responseNow session statement = some session')
    (hprogram : session.program = .admission config checks phase) :
    Advances w i responseNow session config checks phase session' := by
  cases execute_executes h with
  | admission hprogram' hadvances =>
    rw [hprogram] at hprogram'
    cases hprogram'
    exact hadvances
  | cleanup hprogram' hcleans =>
    rw [hprogram] at hprogram'
    cases hprogram'
  | other hprogram' hmodifies =>
    rw [hprogram] at hprogram'
    cases hprogram'

/-- A `DELETE` that did not have to wait. -/
structure Deleting (w : World) (i : ℕ) (keys : List CounterKey) (session : Session) (program : Program)
    (tables : WindowTables) (session' : Session) : Prop where
  nodup : keys.Nodup
  present : ∀ key ∈ keys, key ∈ (view w session).rows.keys
  rows : ∀ key ∈ keys, w.free i (.row key) = true
  shards : ∀ key ∈ keys, w.free i (.ledger (capacityShard key)) = true
  deleted : deleteRows keys (view w session) = .ok tables
  session_eq : session' = { session with
    txn := session.txn.write keys.toFinset (keys.map capacityShard).toFinset tables.store
    program }

/-- A `DELETE` finds all of its rows, and waits for none. -/
theorem deleting_deletes {keys : List CounterKey} {program : Program}
    (h : deleting w i keys session program = some session') : ∃ tables, Deleting w i keys session program tables session' := by
  unfold deleting at h
  split at h
  · rename_i hready
    obtain ⟨hnodup, hrows, hshards⟩ := hready
    split at h
    · rename_i tables hdelete
      cases h
      exact ⟨tables, hnodup, fun key hkey => (hrows key hkey).1, fun key hkey => (hrows key hkey).2, hshards, hdelete, rfl⟩
    · cases h
  · cases h

/-! ## Programs -/

/-- A session keeps to its program. -/
inductive Continues : Program → Program → Prop
  | admission {config : PostgresConfig} {checks : List (Check FixedWindowPolicy)} (phase phase' : AdmissionPhase) :
    Continues (.admission config checks phase) (.admission config checks phase')
  | cleanup {maximumRows sampledAt : ℕ} (picked picked' : List CounterKey) (phase phase' : CleanupPhase) :
    Continues (.cleanup maximumRows sampledAt picked phase) (.cleanup maximumRows sampledAt picked' phase')
  | other (inserted more : List CounterKey) : Continues (.other inserted) (.other (inserted ++ more))

/-- **Programs.** A statement goes on with the program of its session. -/
theorem Executes.continues {responseNow : ℕ} (h : Executes w i responseNow session session') :
    Continues session.program session'.program := by
  cases h with
  | admission hprogram hadvances =>
    rw [hprogram]
    cases hadvances with
    | lockId hfree => exact Continues.admission _ _
    | findRows => exact Continues.admission _ _
    | skipRow hgone => exact Continues.admission _ _
    | lockRow hpresent hfree => exact Continues.admission _ _
    | findMissing => exact Continues.admission _ _
    | lockShard hfree => exact Continues.admission _ _
    | readCapacity => exact Continues.admission _ _
    | preflight => exact Continues.admission _ _
    | upserted hrows hshards hupsert => exact Continues.admission _ _
    | upsertFailed hupsert => exact Continues.admission _ _
  | cleanup hprogram hcleans =>
    rw [hprogram]
    cases hcleans with
    | pick hrow hroom hexpired hnew hfree => exact Continues.cleanup _ _ _ _
    | findShards => exact Continues.cleanup _ _ _ _
    | lockShard hfree => exact Continues.cleanup _ _ _ _
    | delete hpicked hdeleting =>
      obtain ⟨tables, hdeletes⟩ := deleting_deletes hdeleting
      rw [hdeletes.session_eq]
      exact Continues.cleanup _ _ _ _
  | @other inserted hprogram hmodifies =>
    rw [hprogram]
    cases hmodifies with
    | delete hdeleting =>
      obtain ⟨tables, hdeletes⟩ := deleting_deletes hdeleting
      rw [hdeletes.session_eq]
      -- a deletion names no further key
      have hsame := Continues.other inserted []
      rw [List.append_nil] at hsame
      exact hsame
    | insert hnodup hrows hshards hinsert => exact Continues.other _ _

/-- The keys a session may insert. -/
def Program.Names : Program → CounterKey → Prop
  | .admission _ checks _, key => ∃ c ∈ checks, c.counterKey = key
  | .cleanup _ _ _ _, _ => False
  | .other inserted, key => key ∈ inserted

/-- A statement of an admission is one of the same batch. -/
theorem Continues.batch {program program' : Program} (h : Continues program program') {config : PostgresConfig}
    {checks : List (Check FixedWindowPolicy)} {phase : AdmissionPhase}
    (hprogram : program' = .admission config checks phase) : ∃ phase, program = .admission config checks phase := by
  cases h with
  | admission phase phase' =>
    cases hprogram
    exact ⟨phase, rfl⟩
  | cleanup picked picked' phase phase' => cases hprogram
  | other inserted more => cases hprogram

/-- What a program may insert, it may insert later. -/
theorem Continues.names {program program' : Program} (h : Continues program program') {key : CounterKey}
    (hnames : program.Names key) : program'.Names key := by
  cases h with
  | admission phase phase' => exact hnames
  | cleanup picked picked' phase phase' => exact hnames
  | other inserted more => exact List.mem_append_left _ hnames

/-- What is known of every session: its batch is a valid one, and an admission that is past its first statement
holds the advisory lock of every key. -/
structure WellFormed (session : Session) : Prop where
  valid : ∀ config checks phase, session.program = .admission config checks phase →
    checks ≠ [] ∧ (checks.map Check.counterKey).Nodup
  held : ∀ config checks phase, session.program = .admission config checks phase → ∀ c ∈ checks,
    advisoryLockId c.counterKey ∈ session.advisory ∨
      ∃ todo, phase = .advisoryLocks todo ∧ advisoryLockId c.counterKey ∈ todo

/-- How a session is opened. -/
inductive Opens (w : World) : Start → Program → Prop
  | admission {config : PostgresConfig} {request : Request FixedWindowPolicy} (haccepts : accepts config request = true) :
    Opens w (.admission config request)
      (.admission config request.checks (.advisoryLocks (advisoryLockIds request.checks)))
  | cleanup (maximumRows : ℕ) : Opens w (.cleanup maximumRows) (.cleanup maximumRows w.now [] .rowLocks)
  | other : Opens w .other (.other [])

/-- What a session starts with. -/
theorem opens_cases {what : Start} {program : Program} (h : opens w what = some program) : Opens w what program := by
  cases what with
  | admission config request =>
    unfold opens at h
    simp only at h
    split at h
    · rename_i haccepts
      cases h
      exact Opens.admission haccepts
    · cases h
  | cleanup maximumRows =>
    cases h
    exact Opens.cleanup maximumRows
  | other =>
    cases h
    exact Opens.other

/-- A session is opened with a valid batch and all its advisory locks ahead of it. -/
theorem opens_wellFormed {what : Start} {program : Program} (h : opens w what = some program) {txn : WindowTxn} :
    WellFormed ⟨∅, txn, program⟩ := by
  cases opens_cases h with
  | @admission config request haccepts =>
    refine ⟨?_, ?_⟩
    · intro config' checks phase hprogram
      cases hprogram
      cases request with
      | check c => exact ⟨List.cons_ne_nil _ _, List.nodup_singleton _⟩
      | checkAll checks => exact validateBatch_ok (of_decide_eq_true haccepts)
    · intro config' checks phase hprogram c hc
      cases hprogram
      refine Or.inr ⟨_, rfl, ?_⟩
      unfold advisoryLockIds
      rw [List.mem_dedup, List.mem_insertionSort]
      exact List.mem_map.2 ⟨c, hc, rfl⟩
  | cleanup maximumRows => exact ⟨nofun, nofun⟩
  | other => exact ⟨nofun, nofun⟩

/-- **Well-formed sessions.** Every statement keeps the batch, and takes no step past an advisory lock. -/
theorem Executes.wellFormed {responseNow : ℕ} (h : Executes w i responseNow session session')
    (hgood : WellFormed session) : WellFormed session' := by
  refine ⟨?_, ?_⟩
  · intro config checks phase hprogram
    obtain ⟨phase', hsame⟩ := h.continues.batch hprogram
    exact hgood.valid config checks phase' hsame
  intro config checks phase hprogram c hc
  obtain ⟨phase', hphase'⟩ := h.continues.batch hprogram
  have hlocked := hgood.held config checks phase' hphase' c hc
  -- past the first statement nothing is left to lock
  have hpast : (∀ todo, phase' ≠ .advisoryLocks todo) → advisoryLockId c.counterKey ∈ session.advisory := by
    intro hne
    rcases hlocked with hmem | ⟨todo, htodo, -⟩
    · exact hmem
    · exact absurd htodo (hne todo)
  cases h with
  | admission hprogram' hadvances =>
    rw [hphase'] at hprogram'
    cases hprogram'
    cases hadvances with
    | @lockId id todo hfree =>
      cases hprogram
      rcases hlocked with hmem | ⟨todo', htodo, hmem⟩
      · exact Or.inl (Finset.mem_insert_of_mem hmem)
      · cases htodo
        rcases List.mem_cons.1 hmem with heq | hmem
        · exact Or.inl (heq ▸ Finset.mem_insert_self _ _)
        · exact Or.inr ⟨todo, rfl, hmem⟩
    | findRows =>
      -- nothing is left to lock, so the lock of the key is held
      rcases hlocked with hmem | ⟨todo, htodo, hmem⟩
      · exact Or.inl hmem
      · cases htodo
        cases hmem
    | skipRow hgone => exact Or.inl (hpast nofun)
    | lockRow hpresent hfree => exact Or.inl (hpast nofun)
    | findMissing => exact Or.inl (hpast nofun)
    | lockShard hfree => exact Or.inl (hpast nofun)
    | readCapacity => exact Or.inl (hpast nofun)
    | preflight => exact Or.inl (hpast nofun)
    | upserted hrows hshards hupsert => exact Or.inl (hpast nofun)
    | upsertFailed hupsert => exact Or.inl (hpast nofun)
  | cleanup hprogram' hcleans =>
    rw [hphase'] at hprogram'
    cases hprogram'
  | other hprogram' hmodifies =>
    rw [hphase'] at hprogram'
    cases hprogram'

/-! ## Locks and counts -/

/-- What a statement does to the locks and the versions of its session. -/
abbrev Changes (w : World) (i : ℕ) (session session' : Session) : Prop :=
  Ledger.Changes id capacityShard hardMaxRowsPerShard Program.Names w i session session'

/-- A row lock takes one free row. -/
theorem changes_lockRow {key : CounterKey} (hadvisory : session'.advisory = session.advisory)
    (htxn : session'.txn = session.txn.lock {key} ∅ w.committed) (hfree : w.free i (.row key) = true) :
    Changes w i session session' := by
  refine Ledger.Changes.locked hadvisory htxn ?_ ?_
  · intro key' hkey
    rw [Finset.mem_singleton.1 hkey]
    exact hfree
  · intro shard hshard
    cases hshard

/-- A ledger lock takes one free shard. -/
theorem changes_lockShard {shard : CapacityShard} (hadvisory : session'.advisory = session.advisory)
    (htxn : session'.txn = session.txn.lock ∅ {shard} w.committed) (hfree : w.free i (.ledger shard) = true) :
    Changes w i session session' := by
  refine Ledger.Changes.locked hadvisory htxn ?_ ?_
  · intro key hkey
    cases hkey
  · intro shard' hshard
    rw [Finset.mem_singleton.1 hshard]
    exact hfree

/-- A statement of an admission locks what is free, and its upsert counts what it inserts. -/
theorem Advances.changes {responseNow : ℕ} {config : PostgresConfig} {checks : List (Check FixedWindowPolicy)}
    {phase : AdmissionPhase} (h : Advances w i responseNow session config checks phase session')
    (hnodup : (checks.map Check.counterKey).Nodup) : Changes w i session session' := by
  cases h with
  | lockId hfree => exact Ledger.Changes.advisory rfl rfl hfree
  | findRows => exact Ledger.Changes.quiet rfl rfl
  | skipRow hgone => exact Ledger.Changes.quiet rfl rfl
  | lockRow hpresent hfree => exact changes_lockRow rfl rfl hfree
  | findMissing => exact Ledger.Changes.quiet rfl rfl
  | lockShard hfree => exact changes_lockShard rfl rfl hfree
  | readCapacity => exact Ledger.Changes.quiet rfl rfl
  | preflight => exact Ledger.Changes.quiet rfl rfl
  | upserted hrows hshards hupsert =>
    have hcounted := upsert_counted hnodup (upsertBatch_writes hupsert)
    refine Ledger.Changes.wrote rfl rfl ?_ ?_ hcounted ?_
    · intro key hkey
      obtain ⟨c, hc, rfl⟩ := List.mem_map.1 (List.mem_toFinset.1 hkey)
      exact hrows c hc
    · intro shard hshard
      exact hshards shard (List.mem_toFinset.1 hshard)
    · intro key hkey
      by_cases hmem : key ∈ checks.map Check.counterKey
      · -- only a key of the batch may be new
        exact Or.inr (List.mem_map.1 hmem)
      · left
        exact (Finmap.mem_keys_congr (hcounted.lookup key fun h => hmem (List.mem_toFinset.1 h))).1 hkey
  | upsertFailed hupsert => exact Ledger.Changes.quiet rfl rfl

/-- A deletion counts what it removes, and inserts nothing. -/
theorem Deleting.changes {keys : List CounterKey} {program : Program} {tables : WindowTables}
    (h : Deleting w i keys session program tables session') : Changes w i session session' := by
  rw [h.session_eq]
  refine Ledger.Changes.wrote rfl rfl ?_ ?_ (deleteRows_counted h.nodup h.present h.deleted) ?_
  · intro key hkey
    exact h.rows key (List.mem_toFinset.1 hkey)
  · intro shard hshard
    obtain ⟨key, hkey, rfl⟩ := List.mem_map.1 (List.mem_toFinset.1 hshard)
    exact h.shards key hkey
  · intro key hkey
    obtain ⟨row, hrow⟩ := Finmap.mem_keys_iff.1 hkey
    have hlookup := deleteRows_lookup h.deleted key
    change tables.rows.lookup key = some row at hrow
    rw [hlookup] at hrow
    split at hrow
    · cases hrow
    · exact Or.inl (Finmap.mem_keys_iff.2 ⟨row, hrow⟩)

/-- **Every statement counts.** -/
theorem Executes.changes {responseNow : ℕ} (h : Executes w i responseNow session session') (hgood : WellFormed session) :
    Changes w i session session' := by
  cases h with
  | admission hprogram hadvances => exact hadvances.changes (hgood.valid _ _ _ hprogram).2
  | cleanup hprogram hcleans =>
    cases hcleans with
    | pick hrow hroom hexpired hnew hfree => exact changes_lockRow rfl rfl hfree
    | findShards => exact Ledger.Changes.quiet rfl rfl
    | lockShard hfree => exact changes_lockShard rfl rfl hfree
    | delete hpicked hdeleting =>
      obtain ⟨tables, hdeletes⟩ := deleting_deletes hdeleting
      exact hdeletes.changes
  | other hprogram hmodifies =>
    cases hmodifies with
    | delete hdeleting =>
      obtain ⟨tables, hdeletes⟩ := deleting_deletes hdeleting
      exact hdeletes.changes
    | insert hnodup hrows hshards hinsert =>
      have hcounted := insertRows_counted hnodup hinsert
      refine Ledger.Changes.wrote rfl rfl ?_ ?_ hcounted ?_
      · intro key hkey
        exact hrows key (List.mem_toFinset.1 hkey)
      · intro shard hshard
        obtain ⟨key, hkey, rfl⟩ := List.mem_map.1 (List.mem_toFinset.1 hshard)
        exact hshards key hkey
      · intro key hkey
        by_cases hpresent : key ∈ (view w session).rows.keys
        · exact Or.inl hpresent
        · right
          refine List.mem_append_right _ (mem_absentKeys.2 ⟨?_, hpresent⟩)
          by_contra hmem
          exact hpresent ((Finmap.mem_keys_congr
            (hcounted.lookup key fun h => hmem (List.mem_toFinset.1 h))).1 hkey)

/-- What every interleaving keeps: no lock is held twice, and the ledgers are exact. -/
abbrev Orderly (w : World) : Prop :=
  Ledger.Orderly id capacityShard hardMaxRowsPerShard Program.Names WellFormed w

/-- **The sessions of the fixed windows lock what they write, and count it.** -/
theorem programs_lawful : Lawful id capacityShard hardMaxRowsPerShard Program.Names WellFormed programs where
  opens h := opens_wellFormed h
  changes hgood h := (execute_executes h).changes hgood
  good hgood h := (execute_executes h).wellFormed hgood
  names h hnames := (execute_executes h).continues.names hnames

end PgWindows

end Runlimit
