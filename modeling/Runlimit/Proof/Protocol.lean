import Runlimit.Proof.SessionKept

/-!
# Replicas and cleaners that keep to the protocol

Runs of admissions and cleanups alone, at any number, with any keys and any collisions of advisory ids. Every
admission then relies on what it has read along the whole run, and so does every cleanup (`CleanupPhase.Kept`): the
rows it has picked are still there and still expired when it deletes them. A lock on a row that is not there
belongs to an admission of its key (`Protocol.rows`).
-/

namespace Runlimit

open Ledger

namespace PgWindows

variable [Sha2] {w w' : World} {i j : ℕ} {session session' : Session}

/-! ## What a cleanup relies on -/

section Cleanup

variable {committed committed' : WindowStore} {txn : WindowTxn} {maximumRows sampledAt : ℕ} {picked : List CounterKey}
  {phase : CleanupPhase}

omit [Sha2] in
/-- The rows a cleanup has picked: locked, there, and expired. -/
structure Picked (committed : WindowStore) (txn : WindowTxn) (maximumRows sampledAt : ℕ) (picked : List CounterKey) :
    Prop where
  nodup : picked.Nodup
  length_le : picked.length ≤ maximumRows
  locked : ∀ key ∈ picked, key ∈ txn.rows
  expired : ∀ key ∈ picked, ∃ row, committed.rows.lookup key = some row ∧ row.expiresAt ≤ sampledAt

/-- What a cleanup will commit. -/
structure Removed (committed : WindowStore) (txn : WindowTxn) (deleted : List CounterKey) : Prop where
  nodup : deleted.Nodup
  shards : ∀ key ∈ deleted, capacityShard key ∈ txn.shards
  rows_eq : ∀ key, (txn.view committed).rows.lookup key = if key ∈ deleted then none else committed.rows.lookup key
  ledger_eq : ∀ shard, (txn.view committed).ledger shard + (deleted.map capacityShard).count shard =
    committed.ledger shard

/-- What a cleanup may rely on, at each phase. -/
def CleanupPhase.Kept (committed : WindowStore) (txn : WindowTxn) (maximumRows sampledAt : ℕ)
    (picked : List CounterKey) : CleanupPhase → Prop
  | .rowLocks => txn.view committed = committed ∧ Picked committed txn maximumRows sampledAt picked
  | .ledgerLocks todo => txn.view committed = committed ∧ Picked committed txn maximumRows sampledAt picked ∧
      ∀ key ∈ picked, capacityShard key ∈ txn.shards ∨ capacityShard key ∈ todo
  | .deleted keys => Picked committed txn maximumRows sampledAt picked ∧ (∀ key ∈ keys, key ∈ picked) ∧
      Removed committed txn keys

/-- **The statements of a cleanup keep what it relies on.** -/
theorem Cleans.kept (h : Cleans w i session maximumRows sampledAt picked phase session')
    (hkept : phase.Kept w.committed session.txn maximumRows sampledAt picked) :
    ∃ picked' phase', session'.program = .cleanup maximumRows sampledAt picked' phase' ∧
      phase'.Kept w.committed session'.txn maximumRows sampledAt picked' := by
  cases h with
  | @pick key row hrow hroom hexpired hnew hfree =>
    -- one more expired row is locked, below the limit
    obtain ⟨hclean, hpicked⟩ := hkept
    refine ⟨_, _, rfl, (Txn.view_lock _ _ _ _).trans hclean, ?_, ?_, ?_, ?_⟩
    · exact List.nodup_append.2 ⟨hpicked.nodup, List.nodup_singleton key, fun a ha b hb heq =>
        hnew (List.mem_singleton.1 hb ▸ heq ▸ ha)⟩
    · rw [List.length_append, List.length_singleton]
      exact hroom
    · intro other hother
      rcases List.mem_append.1 hother with hmem | hmem
      · exact Finset.mem_union_left _ (hpicked.locked other hmem)
      · exact Finset.mem_union_right _ (Finset.mem_singleton.2 (List.mem_singleton.1 hmem))
    · intro other hother
      rcases List.mem_append.1 hother with hmem | hmem
      · exact hpicked.expired other hmem
      · rw [List.mem_singleton.1 hmem]
        exact ⟨row, hrow, hexpired⟩
  | findShards =>
    -- every row that was picked has its shard on the list of ledger rows to lock
    obtain ⟨hclean, hpicked⟩ := hkept
    refine ⟨_, _, rfl, hclean, hpicked, fun key hkey => Or.inr ?_⟩
    rw [List.mem_dedup, List.mem_insertionSort]
    exact List.mem_map_of_mem hkey
  | @lockShard shard todo hfree =>
    obtain ⟨hclean, hpicked, hshards⟩ := hkept
    refine ⟨_, _, rfl, (Txn.view_lock _ _ _ _).trans hclean, ⟨hpicked.nodup, hpicked.length_le, fun key hkey =>
      Finset.mem_union_left _ (hpicked.locked key hkey), hpicked.expired⟩, fun key hkey => ?_⟩
    exact held_or_left (hshards key hkey)
  | @delete keys _ hsubset hdeleting =>
    -- the trigger takes the deleted rows off the counts of their shards, and those are locked
    obtain ⟨hclean, hpicked, hshards⟩ := hkept
    obtain ⟨tables, hdeletes⟩ := deleting_deletes hdeleting
    have hcounted := deleteRows_counted hdeletes.nodup hdeletes.present hdeletes.deleted
    rw [hdeletes.session_eq]
    refine ⟨_, _, rfl, ⟨hpicked.nodup, hpicked.length_le, fun key hkey =>
      Finset.mem_union_left _ (hpicked.locked key hkey), hpicked.expired⟩, hsubset, hdeletes.nodup, ?_, ?_, ?_⟩
    · intro key hkey
      exact Finset.mem_union_right _ (List.mem_toFinset.2 (List.mem_map_of_mem hkey))
    · intro key
      rw [Txn.view_wrote hcounted]
      have hlookup := deleteRows_lookup hdeletes.deleted key
      rw [view_of_clean hclean] at hlookup
      exact hlookup
    · intro shard
      rw [Txn.view_wrote hcounted]
      obtain ⟨counts, hcounts, hok⟩ := except_bind_eq_ok.1 hdeletes.deleted
      cases hok
      have hledger := capacityAfterDelete_ok hcounts shard
      rw [view_of_clean hclean] at hledger ⊢
      exact hledger

omit [Sha2] in
/-- **No commit of another session takes it away.** -/
theorem CleanupPhase.Kept.undisturbed (hkept : phase.Kept committed txn maximumRows sampledAt picked)
    (h : Undisturbed capacityShard committed committed' txn) :
    phase.Kept committed' txn maximumRows sampledAt picked := by
  have hpicked : Picked committed txn maximumRows sampledAt picked → Picked committed' txn maximumRows sampledAt picked := by
    intro hpicked
    refine ⟨hpicked.nodup, hpicked.length_le, hpicked.locked, fun key hkey => ?_⟩
    obtain ⟨row, hrow, hexpired⟩ := hpicked.expired key hkey
    exact ⟨row, (h.rows key (hpicked.locked key hkey)).trans hrow, hexpired⟩
  cases phase with
  | rowLocks => exact ⟨h.clean hkept.1, hpicked hkept.2⟩
  | ledgerLocks todo => exact ⟨h.clean hkept.1, hpicked hkept.2.1, hkept.2.2⟩
  | deleted keys =>
    obtain ⟨hrows, hsubset, hremoved⟩ := hkept
    refine ⟨hpicked hrows, hsubset, hremoved.nodup, hremoved.shards, fun key => ?_, fun shard => ?_⟩
    · have hkey := hremoved.rows_eq key
      rw [Txn.view_lookup] at hkey ⊢
      split
      · rename_i hmem
        rw [if_pos hmem] at hkey
        rw [hkey, h.rows key hmem]
      · rename_i hmem
        rw [if_neg fun hdeleted => hmem (hrows.locked key (hsubset key hdeleted))]
    · have hshard := hremoved.ledger_eq shard
      rw [Txn.view_ledger] at hshard ⊢
      split
      · rename_i hmem
        rw [if_pos hmem] at hshard
        rw [hshard, h.shards shard hmem]
      · rename_i hmem
        rw [count_eq_zero_of_notMem, Nat.add_zero]
        intro hshards
        obtain ⟨key, hkey, rfl⟩ := List.mem_map.1 hshards
        exact hmem (hremoved.shards key hkey)

end Cleanup

/-! ## Along a run -/

/-- What every run of admissions and cleanups keeps. -/
structure Protocol (w : World) : Prop where
  orderly : Orderly w
  known : ∀ i session inserted, w.sessions.lookup i = some session → session.program ≠ .other inserted
  admissions : ∀ i session config checks phase, w.sessions.lookup i = some session →
    session.program = .admission config checks phase → phase.Kept w.committed session.txn config checks
  cleanups : ∀ i session maximumRows sampledAt picked phase, w.sessions.lookup i = some session →
    session.program = .cleanup maximumRows sampledAt picked phase →
    phase.Kept w.committed session.txn maximumRows sampledAt picked
  rows : ∀ i session key, w.sessions.lookup i = some session → key ∈ session.txn.rows →
    key ∈ w.committed.rows.keys ∨ session.program.Names key

/-- A move that opens no session of another writer. -/
def IsProtocol (move : Move) : Prop := ∀ i, move ≠ .start i .other

instance : DecidablePred IsProtocol
  | .start i .other => .isFalse fun h => h i rfl
  | .start _ (.admission _ _) => .isTrue fun _ h => nomatch h
  | .start _ (.cleanup _) => .isTrue fun _ h => nomatch h
  | .run _ _ _ => .isTrue fun _ h => nomatch h
  | .commit _ => .isTrue fun _ h => nomatch h
  | .abort _ => .isTrue fun _ h => nomatch h

/-- An admission and a cleanup have written nothing when they lock their rows. -/
theorem Protocol.view_eq (hw : Protocol w) (hsession : w.sessions.lookup i = some session)
    {config : PostgresConfig} {checks : List (Check FixedWindowPolicy)} {todo : List CounterKey}
    (hprogram : session.program = .admission config checks (.rowLocks todo)) :
    view w session = WindowStore.tables w.committed :=
  view_of_clean (hw.admissions i session config checks _ hsession hprogram).1

/-- A statement locks rows that are there, or that its program names. -/
theorem Protocol.executes_rows (hw : Protocol w) (hsession : w.sessions.lookup i = some session) {responseNow : ℕ}
    (h : Executes w i responseNow session session') :
    ∀ key ∈ session'.txn.rows, key ∈ w.committed.rows.keys ∨ session'.program.Names key := by
  have hold : ∀ key ∈ session.txn.rows, key ∈ w.committed.rows.keys ∨ session'.program.Names key := by
    intro key hkey
    exact (hw.rows i session key hsession hkey).imp_right h.continues.names
  cases h with
  | @admission config checks phase hprogram hadvances =>
    cases hadvances with
    | lockId hfree => exact hold
    | findRows => exact hold
    | skipRow hgone => exact hold
    | @lockRow key todo hpresent hfree =>
      intro other hother
      rcases Finset.mem_union.1 hother with hmem | hmem
      · exact hold other hmem
      · rw [Finset.mem_singleton.1 hmem]
        left
        rw [hw.view_eq hsession hprogram] at hpresent
        by_contra hnot
        exact hpresent (Finmap.notMem_keys_iff.1 hnot)
    | findMissing => exact hold
    | lockShard hfree =>
      intro other hother
      rcases Finset.mem_union.1 hother with hmem | hmem
      · exact hold other hmem
      · cases hmem
    | readCapacity => exact hold
    | preflight => exact hold
    | upserted hrows hshards hupsert =>
      -- an upsert may lock rows that are new: those of its batch
      intro other hother
      rcases Finset.mem_union.1 hother with hmem | hmem
      · exact hold other hmem
      · exact Or.inr (List.mem_map.1 (List.mem_toFinset.1 hmem))
    | upsertFailed hupsert => exact hold
  | cleanup hprogram hcleans =>
    cases hcleans with
    | @pick key row hrow hroom hexpired hnew hfree =>
      intro other hother
      rcases Finset.mem_union.1 hother with hmem | hmem
      · exact hold other hmem
      · rw [Finset.mem_singleton.1 hmem]
        exact Or.inl (Finmap.mem_keys_iff.2 ⟨row, hrow⟩)
    | findShards => exact hold
    | lockShard hfree =>
      intro other hother
      rcases Finset.mem_union.1 hother with hmem | hmem
      · exact hold other hmem
      · cases hmem
    | @delete keys _ hsubset hdeleting =>
      obtain ⟨tables, hdeletes⟩ := deleting_deletes hdeleting
      obtain ⟨-, hpicked, -⟩ := hw.cleanups i session _ _ _ _ hsession hprogram
      intro other hother
      rw [hdeletes.session_eq] at hother hold ⊢
      rcases Finset.mem_union.1 hother with hmem | hmem
      · exact hold other hmem
      · exact hold other (hpicked.locked other (hsubset other (List.mem_toFinset.1 hmem)))
  | other hprogram hmodifies => exact absurd hprogram (hw.known i session _ hsession)

/-- The statement of an admission or of a cleanup keeps what it relies on. -/
theorem Protocol.ran (hw : Protocol w) {responseNow : ℕ} {statement : Statement}
    (hsession : w.sessions.lookup i = some session)
    (hexecute : execute w i responseNow session statement = some session') (hnow : w.now ≤ responseNow) :
    Protocol { w with now := responseNow, sessions := w.sessions.insert i session' } := by
  have hexecutes := execute_executes hexecute
  have hacts : Acts programs w (.run i responseNow statement) .quiet
      { w with now := responseNow, sessions := w.sessions.insert i session' } := Acts.ran hsession hexecute hnow
  -- the session that ran, and the others as they were
  have hcases : ∀ {j : ℕ} {other : Session}, (w.sessions.insert i session').lookup j = some other →
      (j = i ∧ other = session') ∨ w.sessions.lookup j = some other := by
    intro j other hother
    rw [Finmap.lookup_insert_if] at hother
    split at hother
    · rename_i hj
      cases hother
      exact Or.inl ⟨hj, rfl⟩
    · exact Or.inr hother
  refine ⟨programs_lawful.orderly hacts hw.orderly, ?_, ?_, ?_, ?_⟩
  · intro j other inserted hother hprogram
    rcases hcases hother with ⟨rfl, rfl⟩ | hother
    · have hcontinues := hexecutes.continues
      rw [hprogram] at hcontinues
      generalize hold : session.program = program at hcontinues
      cases hcontinues
      exact hw.known j session _ hsession hold
    · exact hw.known j other inserted hother hprogram
  · intro j other config checks phase hother hprogram
    rcases hcases hother with ⟨rfl, rfl⟩ | hother
    · obtain ⟨phase', hprogram'⟩ := hexecutes.continues.batch hprogram
      obtain ⟨hne, hnodup⟩ := (hw.orderly.good j session hsession).valid _ _ _ hprogram'
      obtain ⟨phase'', hsame, hkept⟩ := (execute_admission hexecute hprogram').kept hne hnodup
        (hw.admissions j session config checks phase' hsession hprogram')
      rw [hprogram] at hsame
      cases hsame
      exact hkept
    · exact hw.admissions j other config checks phase hother hprogram
  · intro j other maximumRows sampledAt picked phase hother hprogram
    rcases hcases hother with ⟨rfl, rfl⟩ | hother
    · cases hexecutes with
      | admission hprogram' hadvances =>
        -- an admission does not turn into a cleanup
        have hcontinues := (Executes.admission hprogram' hadvances).continues
        rw [hprogram, hprogram'] at hcontinues
        cases hcontinues
      | cleanup hprogram' hcleans =>
        obtain ⟨picked', phase', hsame, hkept⟩ := hcleans.kept (hw.cleanups j session _ _ _ _ hsession hprogram')
        rw [hprogram] at hsame
        cases hsame
        exact hkept
      | other hprogram' hmodifies => exact absurd hprogram' (hw.known j session _ hsession)
    · exact hw.cleanups j other maximumRows sampledAt picked phase hother hprogram
  · intro j other key hother hkey
    rcases hcases hother with ⟨rfl, rfl⟩ | hother
    · exact hw.executes_rows hsession hexecutes key hkey
    · exact hw.rows j other key hother hkey

/-- A new session has locked and read nothing. -/
theorem Protocol.opened (hw : Protocol w) {what : Start} {program : Program} (hnew : i ∉ w.sessions.keys)
    (hopens : opens w what = some program) (hwhat : what ≠ .other) :
    Protocol { w with sessions := w.sessions.insert i ⟨∅, .new w.committed, program⟩ } := by
  have hacts : Acts programs w (.start i what) .quiet
      { w with sessions := w.sessions.insert i ⟨∅, .new w.committed, program⟩ } := Acts.opened hnew hopens
  have hcases : ∀ {j : ℕ} {other : Session},
      (w.sessions.insert i ⟨∅, .new w.committed, program⟩).lookup j = some other →
      other = ⟨∅, .new w.committed, program⟩ ∨ w.sessions.lookup j = some other := by
    intro j other hother
    rw [Finmap.lookup_insert_if] at hother
    split at hother
    · cases hother
      exact Or.inl rfl
    · exact Or.inr hother
  refine ⟨programs_lawful.orderly hacts hw.orderly, ?_, ?_, ?_, ?_⟩
  · intro j other inserted hother hprogram
    rcases hcases hother with rfl | hother
    · cases opens_cases hopens with
      | admission haccepts => cases hprogram
      | cleanup maximumRows => cases hprogram
      | other => exact hwhat rfl
    · exact hw.known j other inserted hother hprogram
  · intro j other config checks phase hother hprogram
    rcases hcases hother with rfl | hother
    · cases opens_cases hopens with
      | admission haccepts =>
        cases hprogram
        exact Txn.view_new _
      | cleanup maximumRows => cases hprogram
      | other => exact absurd rfl hwhat
    · exact hw.admissions j other config checks phase hother hprogram
  · intro j other maximumRows sampledAt picked phase hother hprogram
    rcases hcases hother with rfl | hother
    · cases opens_cases hopens with
      | admission haccepts => cases hprogram
      | cleanup maximumRows =>
        cases hprogram
        exact ⟨Txn.view_new _, List.nodup_nil, Nat.zero_le _, nofun, nofun⟩
      | other => exact absurd rfl hwhat
    · exact hw.cleanups j other maximumRows sampledAt picked phase hother hprogram
  · -- a new transaction has locked no row
    intro j other key hother hkey
    rcases hcases hother with rfl | hother
    · exact absurd hkey (Finset.notMem_empty _)
    · exact hw.rows j other key hother hkey

/-- Admissions and cleanups report no change of another writer. -/
theorem Protocol.not_changed (hw : Protocol w) (hsession : w.sessions.lookup i = some session)
    {inserted : List CounterKey} : report session ≠ some (.changed inserted) := by
  intro hreported
  unfold report at hreported
  split at hreported
  · cases hreported
  · cases hreported
  · rename_i hprogram
    exact hw.known i session _ hsession hprogram
  · cases hreported

/-- A commit leaves every other session what it relies on. -/
theorem Protocol.committed (hw : Protocol w) {reported : Report} (hsession : w.sessions.lookup i = some session)
    (hreported : report session = some reported) :
    Protocol { w with committed := session.txn.view w.committed, sessions := w.sessions.erase i } := by
  have hacts : Acts programs w (.commit i) (.committed reported)
      { w with committed := session.txn.view w.committed, sessions := w.sessions.erase i } :=
    Acts.committed hsession hreported
  refine ⟨programs_lawful.orderly hacts hw.orderly, ?_, ?_, ?_, ?_⟩
  · intro j other inserted hother
    exact hw.known j other inserted (lookup_of_erase hother).2
  · intro j other config checks phase hother hprogram
    obtain ⟨hne, hother⟩ := lookup_of_erase hother
    obtain ⟨-, hnodup⟩ := (hw.orderly.good j other hother).valid _ _ _ hprogram
    refine (hw.admissions j other config checks phase hother hprogram).undisturbed
      (hw.orderly.undisturbed hne hsession hother) hnodup ?_
    -- an absent key of the batch is not inserted, since no other writer commits here
    intro hpast c hc hnone
    by_contra hrow
    obtain ⟨inserted, rfl⟩ :=
      inserted_by_other hw.orderly hne hother hprogram hpast hsession hreported hc hnone hrow
    exact hw.not_changed hsession hreported
  · intro j other maximumRows sampledAt picked phase hother hprogram
    obtain ⟨hne, hother⟩ := lookup_of_erase hother
    exact (hw.cleanups j other maximumRows sampledAt picked phase hother hprogram).undisturbed
      (hw.orderly.undisturbed hne hsession hother)
  · intro j other key hother hkey
    obtain ⟨hne, hother⟩ := lookup_of_erase hother
    refine (hw.rows j other key hother hkey).imp_left ?_
    exact (Finmap.mem_keys_congr ((hw.orderly.undisturbed hne hsession hother).rows key hkey)).2

/-- Nothing of an aborted session is left. -/
theorem Protocol.aborted (hw : Protocol w) (hsession : w.sessions.lookup i = some session) :
    Protocol { w with sessions := w.sessions.erase i } := by
  have hacts : Acts programs w (.abort i) .quiet { w with sessions := w.sessions.erase i } := Acts.aborted hsession
  exact ⟨programs_lawful.orderly hacts hw.orderly,
    fun j other inserted hother => hw.known j other inserted (lookup_of_erase hother).2,
    fun j other config checks phase hother => hw.admissions j other config checks phase (lookup_of_erase hother).2,
    fun j other maximumRows sampledAt picked phase hother =>
      hw.cleanups j other maximumRows sampledAt picked phase (lookup_of_erase hother).2,
    fun j other key hother => hw.rows j other key (lookup_of_erase hother).2⟩

/-- **A move of the protocol keeps it.** -/
theorem Protocol.acts {move : Move} {occurrence : Occurrence Report} (hw : Protocol w) (hmove : IsProtocol move)
    (h : Acts programs w move occurrence w') : Protocol w' := by
  cases h with
  | @opened i what program hnew hopens =>
    refine hw.opened hnew hopens ?_
    rintro rfl
    exact hmove i rfl
  | ran hsession hexecute hnow => exact hw.ran hsession hexecute hnow
  | committed hsession hreported => exact hw.committed hsession hreported
  | aborted hsession => exact hw.aborted hsession

/-- The protocol begins with no session. -/
theorem protocol_start {store : WindowStore}
    (h : ∀ shard, store.ExactAt id capacityShard hardMaxRowsPerShard shard) : Protocol (World.start store) := by
  have hnone : ∀ {i : ℕ} {session : Session}, (World.start store : World).sessions.lookup i ≠ some session := by
    intro i session hsession
    rw [show (World.start store : World).sessions = ∅ from rfl, Finmap.lookup_empty] at hsession
    cases hsession
  exact ⟨Ledger.Orderly.start h, fun _ _ _ hsession => absurd hsession hnone,
    fun _ _ _ _ _ hsession => absurd hsession hnone, fun _ _ _ _ _ _ hsession => absurd hsession hnone,
    fun _ _ _ hsession => absurd hsession hnone⟩

/-- **Every run of admissions and cleanups keeps the protocol.** -/
theorem interleaved_protocol {store : WindowStore}
    (h : ∀ shard, store.ExactAt id capacityShard hardMaxRowsPerShard shard) {moves : List Move}
    (hmoves : ∀ move ∈ moves, IsProtocol move) : Protocol (interleaved store moves) :=
  interleaved_inv (fun hmove hacts hw => hw.acts hmove hacts) (protocol_start h) hmoves

end PgWindows

end Runlimit
