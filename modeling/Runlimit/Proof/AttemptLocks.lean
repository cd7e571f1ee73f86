import Runlimit.Proof.AttemptMoves

/-!
# The locks of the attempts

Along every interleaving no two transactions hold the same row, or the advisory lock of the same shard, and a savepoint
has locked no more than what its transaction holds. So what others commit does not touch a locked row
(`Locked.undisturbed`).
-/

namespace Runlimit

namespace PgAttempts

variable [Sha2] {w w' : World} {i j nowMs : ℕ} {session other : Session} {txn txn' : Txn} {key : AttemptKey}

/-- The states of a transaction: the current one, and those of its savepoints, the last first. -/
def Session.states (session : Session) : List Txn :=
  match session.program with
  | .admission _ _ _ => [session.txn]
  | .host savepoints => session.txn :: savepoints

omit [Sha2] in
/-- A host transaction has its savepoints below it. -/
theorem Session.states_host {savepoints : List Txn} (h : session.program = .host savepoints) :
    session.states = session.txn :: savepoints := by
  unfold Session.states
  rw [h]

omit [Sha2] in
/-- The current state is one of them. -/
theorem Session.txn_mem_states (session : Session) : session.txn ∈ session.states := by
  unfold Session.states
  split
  · exact List.mem_singleton_self _
  · exact List.mem_cons_self

/-! ## What a statement locks -/

/-- The rows of a cleanup are free, or held already. -/
theorem swept_free {scan : List AttemptKey} {subject : AttemptSubject} (h : key ∈ swept w i nowMs scan subject txn) :
    key ∈ txn.locked ∨ w.rowFree i key = true := by
  obtain ⟨row, hrow, -, -, hnot⟩ := mem_cleanupSelect h
  rw [Txn.view_lookup] at hrow
  split at hrow
  · rename_i hmem
    exact Or.inl hmem
  · right
    -- `SKIP LOCKED` leaves out the rows that others hold
    rw [mem_lockedByOthers] at hnot
    have hpresent : key ∈ w.committed.keys := Finmap.mem_keys_iff.2 ⟨row, hrow⟩
    cases hfree : w.rowFree i key with
    | true => rfl
    | false => exact absurd ⟨hpresent, hfree⟩ hnot

/-- A statement of an admission locks rows that are free, or held already. -/
theorem Advances.locks {maximum : ℕ} {subject : AttemptSubject} {phase phase' : AdmitPhase}
    {issued : Table LeaseToken Reservation} (h : Advances w i nowMs maximum subject txn phase txn' phase' issued)
    (hkey : key ∈ txn'.locked) : key ∈ txn.locked ∨ w.rowFree i key = true := by
  cases h with
  | locked hfree => exact Or.inl hkey
  | cleaned scan hrows =>
    rcases Txn.mem_write.1 hkey with hmem | hswept
    · exact Or.inl hmem
    · exact swept_free (List.mem_toFinset.1 hswept)
  | absent hnone => exact Or.inl hkey
  | found hrow hfree =>
    rcases Txn.mem_lock.1 hkey with rfl | hmem
    · exact Or.inr hfree
    · exact Or.inl hmem
  | sampled => exact Or.inl hkey
  | judged row => exact Or.inl hkey
  | full hfull => exact Or.inl hkey
  | counted hroom => exact Or.inl hkey
  | noSlot hslot => exact Or.inl hkey
  | chosen hslot => exact Or.inl hkey
  | inserted hfresh hfree hinsertable =>
    rcases Txn.mem_write.1 hkey with hmem | hmem
    · exact Or.inl hmem
    · rw [Finset.mem_singleton.1 hmem]
      exact Or.inr hfree
  | refused hnot => exact Or.inl hkey
  | updated hrow hfresh hfree hstorable =>
    rcases Txn.mem_write.1 hkey with hmem | hmem
    · exact Or.inl hmem
    · rw [Finset.mem_singleton.1 hmem]
      exact Or.inr hfree
  | lost hnot => exact Or.inl hkey

/-- A host transaction waits for a row before it locks it. -/
theorem Serves.locks {outcome : Outcome} (h : Serves w i nowMs txn outcome) (hkey : key ∈ outcome.txn.locked) :
    key ∈ txn.locked ∨ w.rowFree i key = true := by
  cases h with
  | claimed hticket hrow hfree hfresh hlease hlive =>
    rcases Finset.mem_union.1 hkey with hmem | hmem
    · exact Or.inl hmem
    · rw [Finset.mem_singleton.1 hmem]
      exact Or.inr hfree
  | missed hshown hticket hnone => exact Or.inl hkey
  | stale hshown hticket hrow hfree =>
    rcases Txn.mem_lock.1 hkey with rfl | hmem
    · exact Or.inr hfree
    · exact Or.inl hmem
  | completed hticket hrow hfree hcompletes =>
    rcases Finset.mem_union.1 hkey with hmem | hmem
    · exact Or.inl hmem
    · rw [Finset.mem_singleton.1 hmem]
      exact Or.inr hfree

/-- Locks are released at the end only, or by a rollback to a savepoint. -/
theorem Serves.grows {outcome : Outcome} (h : Serves w i nowMs txn outcome) : txn.locked ⊆ outcome.txn.locked := by
  cases h with
  | claimed hticket hrow hfree hfresh hlease hlive => exact Finset.subset_union_left
  | missed hshown hticket hnone => exact fun _ hmem => hmem
  | stale hshown hticket hrow hfree => exact Finset.subset_insert _ _
  | completed hticket hrow hfree hcompletes => exact Finset.subset_union_left

/-! ## Along a run -/

/-- What every interleaving keeps of the locks. -/
structure Locked (w : World) : Prop where
  started : ∀ i ∈ w.sessions.keys, i ∈ w.started
  rows : ∀ i j session other, i ≠ j → w.sessions.lookup i = some session → w.sessions.lookup j = some other →
    ∀ key ∈ session.txn.locked, key ∉ other.txn.locked
  shards : ∀ i j session other shard, i ≠ j → w.sessions.lookup i = some session → w.sessions.lookup j = some other →
    session.shard = some shard → other.shard ≠ some shard
  nested : ∀ i session, w.sessions.lookup i = some session →
    session.states.Pairwise fun later earlier => earlier.locked ⊆ later.locked

omit [Sha2] in
/-- A savepoint has locked no more than its transaction. -/
theorem subset_of_states (h : session.states.Pairwise fun later earlier => earlier.locked ⊆ later.locked)
    {saved : Txn} (hsaved : saved ∈ session.states) : saved.locked ⊆ session.txn.locked := by
  unfold Session.states at h hsaved
  split at hsaved
  · rw [List.mem_singleton.1 hsaved]
  · rename_i savepoints hprogram
    rw [hprogram] at h
    rcases List.mem_cons.1 hsaved with rfl | hmem
    · exact fun _ hmem => hmem
    · exact (List.pairwise_cons.1 h).1 saved hmem

/-- The session after a statement: it locks what is free, its states stay nested, and its shard is its own. -/
structure Sound (w : World) (i : ℕ) (session session' : Session) : Prop where
  locks : ∀ key ∈ session'.txn.locked, key ∈ session.txn.locked ∨ w.rowFree i key = true
  shards : ∀ shard, session'.shard = some shard → session.shard = some shard ∨ w.shardFree i shard = true
  nested : session'.states.Pairwise fun later earlier => earlier.locked ⊆ later.locked

/-- A statement of an admission stays in its shard. -/
theorem Advances.shard {maximum : ℕ} {subject : AttemptSubject} {phase phase' : AdmitPhase}
    {issued : Table LeaseToken Reservation} (h : Advances w i nowMs maximum subject txn phase txn' phase' issued)
    {shard : CapacityShard} (hshard : (⟨txn', .admission maximum subject phase'⟩ : Session).shard = some shard) :
    (⟨txn, .admission maximum subject phase⟩ : Session).shard = some shard ∨ w.shardFree i shard = true := by
  have heq : capacityShard subject.key = shard := by
    unfold Session.shard at hshard
    split at hshard
    · cases hshard
    · rename_i hprogram
      cases hprogram
      exact Option.some.inj hshard
    · cases hshard
  cases h with
  | locked hfree => exact Or.inr (heq ▸ hfree)
  | _ => exact Or.inl (congrArg some heq)

/-- **A statement keeps the locks.** -/
theorem Executes.sound {shown : Shown} (h : Executes w i nowMs session shown w')
    (hnested : session.states.Pairwise fun later earlier => earlier.locked ⊆ later.locked) :
    ∃ session', w'.sessions = w.sessions.insert i session' ∧ w'.started = w.started ∧ Sound w i session session' := by
  cases h with
  | advanced hprogram hadvances =>
    -- an admission has no savepoints
    refine ⟨_, rfl, rfl, fun key hkey => hadvances.locks hkey, fun shard hshard => ?_, List.pairwise_singleton _ _⟩
    have hsame := hadvances.shard hshard
    unfold Session.shard at hsame ⊢
    rw [hprogram]
    exact hsame
  | @served savepoints outcome hprogram hserves =>
    -- the locks of the savepoints stay below those that the statement adds
    rw [Session.states_host hprogram, List.pairwise_cons] at hnested
    refine ⟨_, rfl, rfl, fun key hkey => hserves.locks hkey, nofun, List.pairwise_cons.2 ⟨fun saved hsaved => ?_, hnested.2⟩⟩
    exact (hnested.1 saved hsaved).trans hserves.grows
  | @saved savepoints hprogram =>
    rw [Session.states_host hprogram] at hnested
    refine ⟨_, rfl, rfl, fun key hkey => Or.inl hkey, nofun, List.pairwise_cons.2 ⟨fun saved hsaved => ?_, hnested⟩⟩
    rcases List.mem_cons.1 hsaved with rfl | hmem
    · exact fun _ hkey => hkey
    · exact (List.pairwise_cons.1 hnested).1 saved hmem
  | @restored savepoints depth saved hprogram hsaved =>
    have hmem : saved ∈ session.states := by
      rw [Session.states_host hprogram]
      exact List.mem_cons_of_mem _ (List.mem_of_getElem? hsaved)
    refine ⟨_, rfl, rfl, fun key hkey => Or.inl (subset_of_states hnested hmem hkey), nofun, ?_⟩
    -- the savepoint stays, below the state that goes back to it
    rw [Session.states_host hprogram, List.pairwise_cons] at hnested
    have hdropped : (savepoints.drop depth).Pairwise fun later earlier => earlier.locked ⊆ later.locked :=
      hnested.2.sublist (List.drop_sublist _ _)
    refine List.pairwise_cons.2 ⟨fun earlier hearlier => ?_, hdropped⟩
    rw [List.drop_eq_getElem?_toList_append, hsaved] at hearlier hdropped
    rcases List.mem_cons.1 hearlier with rfl | hmem'
    · exact fun _ hkey => hkey
    · exact (List.pairwise_cons.1 hdropped).1 earlier hmem'
  | @released savepoints depth hprogram =>
    rw [Session.states_host hprogram, List.pairwise_cons] at hnested
    refine ⟨_, rfl, rfl, fun key hkey => Or.inl hkey, nofun, List.pairwise_cons.2 ⟨fun saved hsaved => ?_, ?_⟩⟩
    · exact hnested.1 saved (List.mem_of_mem_drop hsaved)
    · exact hnested.2.sublist (List.drop_sublist _ _)

omit [Sha2] in
/-- A session that was open before one of them changed. -/
theorem lookup_insert_cases {sessions : Table ℕ Session} {session' : Session}
    (h : (sessions.insert i session').lookup j = some other) :
    j = i ∧ other = session' ∨ j ≠ i ∧ sessions.lookup j = some other := by
  rw [Finmap.lookup_insert_if] at h
  split at h
  · rename_i hj
    cases h
    exact Or.inl ⟨hj, rfl⟩
  · rename_i hj
    exact Or.inr ⟨hj, h⟩

omit [Sha2] in
/-- The sessions that are left were open before. -/
theorem lookup_erase_cases {sessions : Table ℕ Session} (h : (sessions.erase i).lookup j = some other) :
    j ≠ i ∧ sessions.lookup j = some other := by
  rw [Finmap.lookup_erase_if] at h
  split at h
  · cases h
  · rename_i hj
    exact ⟨hj, h⟩

/-- A session that is replaced by a sound one. -/
theorem Locked.replaced (hw : Locked w) {session' : Session} (hstarted : i ∈ w'.started) (hgrown : w.started ⊆ w'.started)
    (hsessions : w'.sessions = w.sessions.insert i session') (hsound : Sound w i session session')
    (hsession : w.sessions.lookup i = some session ∨ session.txn.locked = ∅ ∧ session.shard = none) : Locked w' := by
  -- what the new session holds it held before, or it was free
  have hrow : ∀ {j other}, j ≠ i → w.sessions.lookup j = some other → ∀ key ∈ session'.txn.locked,
      key ∉ other.txn.locked := by
    intro j other hne hother key hkey
    rcases hsound.locks key hkey with hheld | hfree
    · rcases hsession with hsession | ⟨hempty, -⟩
      · exact hw.rows i j session other (Ne.symm hne) hsession hother key hheld
      · rw [hempty] at hheld
        cases hheld
    · exact rowFree_iff.1 hfree j other hne hother
  have hshard : ∀ {j other shard}, j ≠ i → w.sessions.lookup j = some other → session'.shard = some shard →
      other.shard ≠ some shard := by
    intro j other shard hne hother hmine
    rcases hsound.shards shard hmine with hheld | hfree
    · rcases hsession with hsession | ⟨-, hnone⟩
      · exact hw.shards i j session other shard (Ne.symm hne) hsession hother hheld
      · rw [hnone] at hheld
        cases hheld
    · exact shardFree_iff.1 hfree j other hne hother
  refine ⟨?_, ?_, ?_, ?_⟩
  · intro j hj
    rw [hsessions, Finmap.keys_insert, Finset.mem_insert] at hj
    rcases hj with rfl | hj
    · exact hstarted
    · exact hgrown (hw.started j hj)
  · intro j k one two hne hone htwo key hkey hmem
    rw [hsessions] at hone htwo
    rcases lookup_insert_cases hone with ⟨rfl, rfl⟩ | ⟨hj, hold⟩
    · rcases lookup_insert_cases htwo with ⟨rfl, -⟩ | ⟨hk, hold'⟩
      · -- the replaced session against itself
        exact hne rfl
      · exact hrow hk hold' key hkey hmem
    · rcases lookup_insert_cases htwo with ⟨rfl, rfl⟩ | ⟨hk, hold'⟩
      · exact hrow hj hold key hmem hkey
      · exact hw.rows j k one two hne hold hold' key hkey hmem
  · intro j k one two shard hne hone htwo hmine htheirs
    rw [hsessions] at hone htwo
    rcases lookup_insert_cases hone with ⟨rfl, rfl⟩ | ⟨hj, hold⟩
    · rcases lookup_insert_cases htwo with ⟨rfl, -⟩ | ⟨hk, hold'⟩
      · exact hne rfl
      · exact hshard hk hold' hmine htheirs
    · rcases lookup_insert_cases htwo with ⟨rfl, rfl⟩ | ⟨hk, hold'⟩
      · exact hshard hj hold htheirs hmine
      · exact hw.shards j k one two shard hne hold hold' hmine htheirs
  · intro j one hone
    rw [hsessions] at hone
    rcases lookup_insert_cases hone with ⟨rfl, rfl⟩ | ⟨hj, hone⟩
    · exact hsound.nested
    · exact hw.nested j one hone

/-- A session that ends. -/
theorem Locked.ended (hw : Locked w) (hsessions : w'.sessions = w.sessions.erase i) (hstarted : w'.started = w.started) :
    Locked w' := by
  refine ⟨?_, ?_, ?_, ?_⟩
  · intro j hj
    rw [hsessions, Finmap.mem_keys_iff] at hj
    obtain ⟨one, hone⟩ := hj
    rw [hstarted]
    exact hw.started j (Finmap.mem_keys_iff.2 ⟨one, (lookup_erase_cases hone).2⟩)
  · intro j k one two hne hone htwo
    rw [hsessions] at hone htwo
    exact hw.rows j k one two hne (lookup_erase_cases hone).2 (lookup_erase_cases htwo).2
  · intro j k one two shard hne hone htwo
    rw [hsessions] at hone htwo
    exact hw.shards j k one two shard hne (lookup_erase_cases hone).2 (lookup_erase_cases htwo).2
  · intro j one hone
    rw [hsessions] at hone
    exact hw.nested j one (lookup_erase_cases hone).2

/-- A new session has locked nothing. -/
theorem sound_new (w : World) (i : ℕ) (what : Start) : Sound w i ⟨.new, program what⟩ ⟨.new, program what⟩ := by
  refine ⟨nofun, ?_, ?_⟩
  · cases what with
    | admission config subject => nofun
    | host => nofun
  · cases what with
    | admission config subject => exact List.pairwise_singleton _ _
    | host => exact List.pairwise_singleton _ _

/-- And it is in no shard yet. -/
theorem shard_new (what : Start) : (⟨.new, program what⟩ : Session).shard = none := by
  cases what with
  | admission config subject => rfl
  | host => rfl

/-- **A move keeps the locks.** -/
theorem Locked.acts {move : Move} {shown : Shown} (hw : Locked w) (h : Acts w move shown w') : Locked w' := by
  cases h with
  | began what hnew =>
    exact hw.replaced (Finset.mem_insert_self _ _) (Finset.subset_insert _ _) rfl (sound_new w _ what)
      (Or.inr ⟨rfl, shard_new what⟩)
  | @ran i nowMs statement session shown w' hsession hnow hmax hexecutes =>
    obtain ⟨session', hsessions, hstarted, hsound⟩ := hexecutes.sound (hw.nested i session hsession)
    refine hw.replaced ?_ (hstarted ▸ Finset.Subset.refl _) hsessions hsound (Or.inl hsession)
    rw [hstarted]
    exact hw.started i (Finmap.mem_keys_iff.2 ⟨session, hsession⟩)
  | reserved hsession hprogram => exact hw.ended rfl rfl
  | full hsession hprogram => exact hw.ended rfl rfl
  | hosted hsession hprogram => exact hw.ended rfl rfl
  | rolledBack hsession hshown => exact hw.ended rfl rfl

/-- Before the first session nothing is locked. -/
theorem locked_start : Locked World.start := by
  have hnone : ∀ {i : ℕ} {session : Session}, World.start.sessions.lookup i ≠ some session := by
    intro i session hsession
    rw [show World.start.sessions = ∅ from rfl, Finmap.lookup_empty] at hsession
    cases hsession
  refine ⟨?_, fun _ _ _ _ _ hsession => absurd hsession hnone, fun _ _ _ _ _ _ hsession => absurd hsession hnone,
    fun _ _ hsession => absurd hsession hnone⟩
  intro i hi
  obtain ⟨session, hsession⟩ := Finmap.mem_keys_iff.1 hi
  exact absurd hsession hnone

/-- A commit leaves the rows that another transaction holds. -/
theorem Locked.undisturbed (hw : Locked w) (hne : i ≠ j) (hsession : w.sessions.lookup i = some session)
    (hother : w.sessions.lookup j = some other) (hkey : key ∈ session.txn.locked) :
    (other.txn.view w.committed).lookup key = w.committed.lookup key := by
  rw [Txn.view_lookup, if_neg (hw.rows i j session other hne hsession hother key hkey)]

end PgAttempts

end Runlimit
