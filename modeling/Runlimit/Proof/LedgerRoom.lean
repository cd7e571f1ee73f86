import Runlimit.Proof.SessionKept

/-!
# The room that an admission has counted

An admission counts, under the locks of their ledgers, the keys that it finds absent. Until its upsert it may insert
fewer of them than it has counted, because another writer has inserted one in between, but no more: a key that it did
not count is locked, or was brought by another writer (`AdmissionPhase.Roomy`). So its maximum holds as long as no
row that another writer brings is gone again before the commit.
-/

namespace Runlimit

open Ledger

namespace PgWindows

variable [Sha2] {w w' : World} {i : ℕ} {session session' : Session} {config : PostgresConfig}
  {checks : List (Check FixedWindowPolicy)} {brought brought' : Set CounterKey}

/-! ## New rows -/

section Rows

variable {tables tables' : WindowTables}

/-- Fewer absent keys are fewer new rows. -/
theorem rowless_mono (h : ∀ c ∈ checks, tables'.rows.lookup c.counterKey = none → tables.rows.lookup c.counterKey = none)
    (shard : CapacityShard) : rowless tables' checks shard ≤ rowless tables checks shard := by
  unfold rowless
  refine List.countP_mono_left fun c hc hcounted => ?_
  rw [Bool.and_eq_true, Option.isNone_iff_eq_none] at hcounted ⊢
  exact ⟨h c hc hcounted.1, hcounted.2⟩

theorem insertedShards_mono
    (h : ∀ c ∈ checks, tables'.rows.lookup c.counterKey = none → tables.rows.lookup c.counterKey = none)
    {shard : CapacityShard} (hshard : shard ∈ insertedShards tables' checks) : shard ∈ insertedShards tables checks := by
  obtain ⟨c, hc, hnone, hsame⟩ := mem_insertedShards.1 hshard
  exact mem_insertedShards.2 ⟨c, hc, h c hc hnone, hsame⟩

/-- The upsert adds the rows of absent keys, at most. -/
theorem upsert_rowCounts_le {now : ℕ} {writes : Writes} (h : upsert tables now checks = .ok writes)
    (shard : CapacityShard) :
    (writes.apply tables).rowCounts shard ≤ tables.rowCounts shard + rowless tables checks shard := by
  rw [upsert_eq_insertRows] at h
  rw [((insertRows_ok h).2 shard).1]
  refine Nat.add_le_add_left ?_ _
  have hkeys : (((upsertedRows tables now checks).map (·.2)).map Prod.fst).Sublist (checks.map Check.counterKey) :=
    upsertedRows_sublist
  have hsublist := hkeys.filter fun key => (tables.rows.lookup key).isNone
  refine (List.Sublist.count_le shard (hsublist.map capacityShard)).trans (le_of_eq ?_)
  unfold rowless
  rw [List.count, List.countP_map, List.countP_filter, List.countP_map]
  refine List.countP_congr fun c _ => ?_
  simp [and_comm]

end Rows

/-! ## What the maximum rests on -/

section Roomy

variable {committed committed' : WindowStore} {txn : WindowTxn} {phase : AdmissionPhase}

/-- Nothing is written, and a key that has a row is locked or was brought by another writer. -/
structure Accounted (brought : Set CounterKey) (committed : WindowStore) (txn : WindowTxn)
    (checks : List (Check FixedWindowPolicy)) : Prop where
  clean : txn.view committed = committed
  keys : ∀ c ∈ checks, c.counterKey ∈ txn.rows ∨ committed.rows.lookup c.counterKey = none ∨ c.counterKey ∈ brought

/-- A shard gets no new row, or has room for all of them. -/
def Fits (maximum : ℕ) (committed : WindowStore) (checks : List (Check FixedWindowPolicy)) : Prop :=
  ∀ shard, rowless (WindowStore.tables committed) checks shard = 0 ∨
    committed.ledger shard + rowless (WindowStore.tables committed) checks shard ≤ maximum

/-- What the maximum of an admission rests on, at each phase. -/
def AdmissionPhase.Roomy (brought : Set CounterKey) (committed : WindowStore) (txn : WindowTxn) (config : PostgresConfig)
    (checks : List (Check FixedWindowPolicy)) : AdmissionPhase → Prop
  | .advisoryLocks _ => txn.view committed = committed
  | .rowLocks todo => txn.view committed = committed ∧ ∀ c ∈ checks, c.counterKey ∈ txn.rows ∨ c.counterKey ∈ todo ∨
      committed.rows.lookup c.counterKey = none ∨ c.counterKey ∈ brought
  | .capacityLocks missing todo => Accounted brought committed txn checks ∧
      (∃ rows : Table CounterKey WindowRow, missing = missingKeys ⟨committed.ledger, rows⟩ checks ∧
        ∀ c ∈ checks, committed.rows.lookup c.counterKey = none → rows.lookup c.counterKey = none) ∧
      ∀ shard ∈ targetShards missing, shard ∈ txn.shards ∨ shard ∈ todo
  | .preflight capacityDenial => Accounted brought committed txn checks ∧ Covered committed txn checks ∧
      (capacityDenial = none → Fits config.maximumRowsPerShard committed checks)
  | .upsert _ _ => Accounted brought committed txn checks ∧ Covered committed txn checks ∧
      Fits config.maximumRowsPerShard committed checks
  | .allowed _ _ => ∀ shard, (txn.view committed).ledger shard ≤ max config.maximumRowsPerShard (committed.ledger shard)
  | .denied _ _ => True
  | .failed _ => True

/-- **The statements of an admission keep its room.** -/
theorem Advances.roomy {responseNow : ℕ} (h : Advances w i responseNow session config checks phase session')
    (hroomy : phase.Roomy brought w.committed session.txn config checks)
    (hnodup : (checks.map Check.counterKey).Nodup) :
    ∃ phase', session'.program = .admission config checks phase' ∧
      phase'.Roomy brought w.committed session'.txn config checks := by
  cases h with
  | lockId hfree => exact ⟨_, rfl, hroomy⟩
  | findRows =>
    refine ⟨_, rfl, hroomy, fun c hc => ?_⟩
    rw [view_of_clean hroomy]
    exact Or.inr ((mem_existingRows_or hc).imp_right Or.inl)
  | @skipRow key todo hgone =>
    obtain ⟨hclean, hkeys⟩ := hroomy
    rw [view_of_clean hclean] at hgone
    refine ⟨_, rfl, hclean, fun c hc => ?_⟩
    rcases hkeys c hc with hlocked | htodo | hrest
    · exact Or.inl hlocked
    · rcases List.mem_cons.1 htodo with heq | hmem
      · exact Or.inr (Or.inr (Or.inl (heq ▸ hgone)))
      · exact Or.inr (Or.inl hmem)
    · exact Or.inr (Or.inr hrest)
  | @lockRow key todo hpresent hfree =>
    obtain ⟨hclean, hkeys⟩ := hroomy
    refine ⟨_, rfl, (Txn.view_lock _ _ _ _).trans hclean, fun c hc => ?_⟩
    exact or_assoc.1 ((or_assoc.2 (hkeys c hc)).imp_left held_or_left)
  | findMissing =>
    obtain ⟨hclean, hkeys⟩ := hroomy
    refine ⟨_, rfl, ⟨hclean, fun c hc => ?_⟩, ⟨w.committed.rows, ?_, fun c _ hnone => hnone⟩, fun shard hshard => Or.inr hshard⟩
    · rcases hkeys c hc with hlocked | htodo | hrest
      · exact Or.inl hlocked
      · cases htodo
      · exact Or.inr hrest
    · rw [view_of_clean hclean]
      rfl
  | @lockShard missing shard todo hfree =>
    obtain ⟨haccounted, hmissing, hshards⟩ := hroomy
    refine ⟨_, rfl, ⟨(Txn.view_lock _ _ _ _).trans haccounted.clean, fun c hc => ?_⟩, hmissing, ?_⟩
    · exact (haccounted.keys c hc).imp_left (Finset.mem_union_left _)
    · exact fun shard' hshard' => held_or_left (hshards shard' hshard')
  | @readCapacity missing =>
    obtain ⟨haccounted, ⟨rows, rfl, habsent⟩, hshards⟩ := hroomy
    rw [view_of_clean haccounted.clean]
    -- the counts are read under the locks of their shards, for the keys that were absent in the snapshot
    have hread := @capacityPreflight_eq _ ⟨w.committed.ledger, rows⟩ config.maximumRowsPerShard checks
    change _ = Except.ok _ at hread
    have hcovered : Covered w.committed session.txn checks := by
      intro shard hshard
      rcases hshards shard (insertedShards_mono habsent hshard) with hlocked | htodo
      · exact hlocked
      · cases htodo
    refine ⟨_, rfl, ?_⟩
    change AdmissionPhase.Roomy _ _ session.txn _ _ (orFailed AdmissionPhase.preflight
      (firstCapacityDenial _ _ _ (capacityRows _ w.committed.ledger)))
    rw [hread]
    refine ⟨haccounted, hcovered, fun hnone shard => ?_⟩
    have hle := @rowless_mono _ checks ⟨w.committed.ledger, rows⟩ (WindowStore.tables w.committed) habsent shard
    have hroom := rowless_le hnone shard
    rw [List.nil_append] at hroom
    rcases hroom with hzero | hroom
    · change rowless ⟨w.committed.ledger, rows⟩ checks shard = 0 at hzero
      exact Or.inl (by omega)
    · change w.committed.ledger shard + _ ≤ _ at hroom
      exact Or.inr (by omega)
  | @preflight capacityDenial =>
    obtain ⟨haccounted, hcovered, hfits⟩ := hroomy
    refine ⟨_, rfl, ?_⟩
    cases hquota : preflightBatch (view w session) w.now checks with
    | error error => exact trivial
    | ok quotaDenial =>
      change AdmissionPhase.Roomy _ _ session.txn _ _ (afterPreflight _ _ capacityDenial quotaDenial)
      unfold afterPreflight
      cases hfirst : firstOf capacityDenial quotaDenial with
      | some denied => exact trivial
      | none => exact ⟨haccounted, hcovered, hfits (firstOf_eq_none hfirst).1⟩
  | @upserted databaseNow preflightResponse allowances writes hrows hshards hupsert =>
    obtain ⟨haccounted, hcovered, hfits⟩ := hroomy
    have hwrites := upsertBatch_writes hupsert
    refine ⟨_, rfl, fun shard => ?_⟩
    rw [Txn.view_wrote (upsert_counted hnodup hwrites)]
    have hle := upsert_rowCounts_le hwrites shard
    rw [view_of_clean haccounted.clean] at hle
    change _ ≤ w.committed.ledger shard + _ at hle
    rw [view_of_clean haccounted.clean]
    change (writes.apply (WindowStore.tables w.committed)).rowCounts shard ≤ _
    rcases hfits shard with hzero | hroom
    · omega
    · omega
  | upsertFailed hupsert => exact ⟨_, rfl, trivial⟩

/-- Between two committed states no key of the batch loses its row. -/
theorem Accounted.absent (h : Accounted brought committed txn checks)
    (hundisturbed : Undisturbed capacityShard committed committed' txn) (hmono : brought ⊆ brought')
    (hpresent : ∀ c ∈ checks, c.counterKey ∈ brought' → committed'.rows.lookup c.counterKey ≠ none) :
    ∀ c ∈ checks, committed'.rows.lookup c.counterKey = none → committed.rows.lookup c.counterKey = none := by
  intro c hc hnone
  rcases h.keys c hc with hlocked | habsent | hmem
  · exact (hundisturbed.rows _ hlocked).symm.trans hnone
  · exact habsent
  · exact absurd hnone (hpresent c hc (hmono hmem))

/-- **No commit of another session takes the room away**, unless a row that another writer has brought is gone. -/
theorem AdmissionPhase.Roomy.undisturbed (hroomy : phase.Roomy brought committed txn config checks)
    (h : Undisturbed capacityShard committed committed' txn) (hmono : brought ⊆ brought')
    (hbrings : (∀ todo, phase ≠ .advisoryLocks todo) → ∀ c ∈ checks, committed.rows.lookup c.counterKey = none →
      committed'.rows.lookup c.counterKey = none ∨ c.counterKey ∈ brought')
    (hpresent : ∀ c ∈ checks, c.counterKey ∈ brought' → committed'.rows.lookup c.counterKey ≠ none) :
    phase.Roomy brought' committed' txn config checks := by
  have haccounted : (∀ todo, phase ≠ .advisoryLocks todo) → Accounted brought committed txn checks →
      Accounted brought' committed' txn checks := by
    intro hpast haccounted
    refine ⟨h.clean haccounted.clean, fun c hc => ?_⟩
    rcases haccounted.keys c hc with hlocked | hnone | hmem
    · exact Or.inl hlocked
    · exact Or.inr (hbrings hpast c hc hnone)
    · exact Or.inr (Or.inr (hmono hmem))
  have hcovered : Accounted brought committed txn checks → Covered committed txn checks →
      Covered committed' txn checks := by
    intro haccounted hcovered shard hshard
    exact hcovered shard (insertedShards_mono (haccounted.absent h hmono hpresent) hshard)
  have hfits : Accounted brought committed txn checks → Covered committed txn checks →
      Fits config.maximumRowsPerShard committed checks → Fits config.maximumRowsPerShard committed' checks := by
    intro haccounted hcovered hfits shard
    have hle := @rowless_mono _ checks (WindowStore.tables committed) (WindowStore.tables committed')
      (haccounted.absent h hmono hpresent) shard
    rcases hfits shard with hzero | hroom
    · exact Or.inl (by omega)
    · by_cases hshard : shard ∈ insertedShards (WindowStore.tables committed) checks
      · have hledger := h.shards shard (hcovered shard hshard)
        exact Or.inr (by omega)
      · exact Or.inl (Nat.le_zero.1 (hle.trans_eq (rowless_eq_zero hshard)))
  cases phase with
  | advisoryLocks todo => exact h.clean hroomy
  | rowLocks todo =>
    obtain ⟨hclean, hkeys⟩ := hroomy
    refine ⟨h.clean hclean, fun c hc => ?_⟩
    rcases hkeys c hc with hlocked | htodo | hnone | hmem
    · exact Or.inl hlocked
    · exact Or.inr (Or.inl htodo)
    · exact Or.inr (Or.inr (hbrings nofun c hc hnone))
    · exact Or.inr (Or.inr (Or.inr (hmono hmem)))
  | capacityLocks missing todo =>
    obtain ⟨hkeys, ⟨rows, hmissing, habsent⟩, hshards⟩ := hroomy
    refine ⟨haccounted nofun hkeys, ⟨rows, hmissing, fun c hc hnone => ?_⟩, hshards⟩
    exact habsent c hc (hkeys.absent h hmono hpresent c hc hnone)
  | preflight capacityDenial =>
    obtain ⟨hkeys, hlocked, hroom⟩ := hroomy
    exact ⟨haccounted nofun hkeys, hcovered hkeys hlocked, fun hnone => hfits hkeys hlocked (hroom hnone)⟩
  | upsert databaseNow preflightResponse =>
    obtain ⟨hkeys, hlocked, hroom⟩ := hroomy
    exact ⟨haccounted nofun hkeys, hcovered hkeys hlocked, hfits hkeys hlocked hroom⟩
  | allowed samples allowances =>
    intro shard
    have hle := hroomy shard
    rw [Txn.view_ledger] at hle ⊢
    split
    · rename_i hmem
      rw [if_pos hmem] at hle
      rw [h.shards shard hmem]
      exact hle
    · exact Nat.le_max_right _ _
  | denied index denial => exact trivial
  | failed error => exact trivial

/-- More keys may have been brought, if their rows are there. -/
theorem AdmissionPhase.Roomy.widen (hroomy : phase.Roomy brought committed txn config checks) (hmono : brought ⊆ brought')
    (hpresent : ∀ c ∈ checks, c.counterKey ∈ brought' → committed.rows.lookup c.counterKey ≠ none) :
    phase.Roomy brought' committed txn config checks :=
  hroomy.undisturbed ⟨fun _ _ => rfl, fun _ _ => rfl, fun _ _ => Iff.rfl⟩ hmono
    (fun _ _ _ hnone => Or.inl hnone) hpresent

end Roomy

/-! ## Along a run -/

/-- Another writer commits a row of a key that had none. -/
def Brings (w : World) (move : Move) (key : CounterKey) : Prop :=
  w.committed.rows.lookup key = none ∧ (moveOn programs move w).2.committed.rows.lookup key ≠ none ∧
    ∃ inserted, (moveOn programs move w).1 = .committed (.changed inserted)

/-- The keys whose rows other writers have brought in some moves. -/
def Brought (w : World) (moves : List Move) : Set CounterKey :=
  { key | ∃ earlier move later, moves = earlier ++ move :: later ∧
      Brings (Machine.final (moveOn programs) w earlier) move key }

theorem brought_snoc_subset (w : World) (moves : List Move) (move : Move) : Brought w moves ⊆ Brought w (moves ++ [move]) := by
  rintro key ⟨earlier, first, later, rfl, hbrings⟩
  exact ⟨earlier, first, later ++ [move], by rw [List.append_assoc, List.cons_append], hbrings⟩

/-- An admission of a batch, with what its maximum rests on. -/
def Rooms (brought : Set CounterKey) (w : World) (i : ℕ) (config : PostgresConfig)
    (checks : List (Check FixedWindowPolicy)) : Prop :=
  ∃ session phase, w.sessions.lookup i = some session ∧ session.program = .admission config checks phase ∧
    phase.Roomy brought w.committed session.txn config checks

/-- **A move keeps the room of an admission**, unless it ends the admission. -/
theorem acts_rooms {move : Move} {occurrence : Occurrence Report} (h : Acts programs w move occurrence w')
    (hw : Orderly w) (hrooms : Rooms brought w i config checks) (hmono : brought ⊆ brought')
    (hbrings : ∀ c ∈ checks, w.committed.rows.lookup c.counterKey = none →
      w'.committed.rows.lookup c.counterKey ≠ none → (∃ inserted, occurrence = .committed (.changed inserted)) →
      c.counterKey ∈ brought')
    (hpresent : ∀ c ∈ checks, c.counterKey ∈ brought' → w'.committed.rows.lookup c.counterKey ≠ none)
    (hcommit : move ≠ .commit i) (habort : move ≠ .abort i) : Rooms brought' w' i config checks := by
  obtain ⟨session, phase, hsession, hprogram, hroomy⟩ := hrooms
  obtain ⟨hne, hnodup⟩ := (hw.good i session hsession).valid config checks phase hprogram
  cases h with
  | @opened j what program hnew hopens =>
    refine ⟨session, phase, ?_, hprogram, hroomy.widen hmono hpresent⟩
    rw [Finmap.lookup_insert_if, if_neg]
    · exact hsession
    · rintro rfl
      exact hnew (Finmap.mem_keys_iff.2 ⟨session, hsession⟩)
  | @ran j responseNow statement other other' hother hexecute hnow =>
    by_cases hj : i = j
    · subst hj
      rw [hsession] at hother
      cases hother
      obtain ⟨phase', hprogram', hroomy'⟩ := (execute_admission hexecute hprogram).roomy hroomy hnodup
      refine ⟨other', phase', ?_, hprogram', hroomy'.widen hmono hpresent⟩
      rw [Finmap.lookup_insert_if, if_pos rfl]
    · refine ⟨session, phase, ?_, hprogram, hroomy.widen hmono hpresent⟩
      rw [Finmap.lookup_insert_if, if_neg hj]
      exact hsession
  | @committed j other _ hother hreported =>
    have hij : i ≠ j := by
      rintro rfl
      exact hcommit rfl
    refine ⟨session, phase, ?_, hprogram, hroomy.undisturbed (hw.undisturbed hij hother hsession) hmono ?_ hpresent⟩
    · rw [Finmap.lookup_erase_if, if_neg hij]
      exact hsession
    · -- an absent key of the batch is not inserted under its advisory lock, so another writer brings it
      intro hpast c hc hnone
      by_cases hrow : (other.txn.view w.committed).rows.lookup c.counterKey = none
      · exact Or.inl hrow
      · obtain ⟨inserted, rfl⟩ := inserted_by_other hw hij hsession hprogram hpast hother hreported hc hnone hrow
        exact Or.inr (hbrings c hc hnone hrow ⟨inserted, rfl⟩)
  | @aborted j other hother =>
    refine ⟨session, phase, ?_, hprogram, hroomy.widen hmono hpresent⟩
    rw [Finmap.lookup_erase_if, if_neg]
    · exact hsession
    · rintro rfl
      exact habort rfl

/-- A new admission has counted nothing yet. -/
theorem rooms_opened {request : Request FixedWindowPolicy} {occurrence : Occurrence Report}
    (h : Acts programs w (.start i (.admission config request)) occurrence w') :
    Rooms brought w' i config request.checks := by
  cases h with
  | opened hnew hopens =>
    change opens w (.admission config request) = some _ at hopens
    cases opens_cases hopens with
    | admission haccepts =>
      refine ⟨⟨∅, .new w.committed, .admission config request.checks _⟩, .advisoryLocks (advisoryLockIds request.checks), ?_,
        rfl, Txn.view_new _⟩
      rw [Finmap.lookup_insert_if, if_pos rfl]

/-- **The room of an admission along a run**, where no row that another writer brings is gone again. -/
theorem final_rooms {moves : List Move} (hw : Orderly w) (hrooms : Rooms ∅ w i config checks)
    (hrunning : ∀ move ∈ moves, move ≠ .commit i ∧ move ≠ .abort i)
    (hstays : ∀ c ∈ checks, ∀ part, part <+: moves → c.counterKey ∈ Brought w part →
      (Machine.final (moveOn programs) w part).committed.rows.lookup c.counterKey ≠ none) :
    Orderly (Machine.final (moveOn programs) w moves) ∧
      Rooms (Brought w moves) (Machine.final (moveOn programs) w moves) i config checks := by
  induction moves using List.reverseRecOn with
  | nil =>
    have hnone : Brought w [] = ∅ := by
      refine Set.eq_empty_of_forall_notMem fun key => ?_
      rintro ⟨earlier, move, later, hsplit, -⟩
      exact absurd hsplit.symm (List.append_ne_nil_of_right_ne_nil _ (List.cons_ne_nil _ _))
    rw [hnone]
    exact ⟨hw, hrooms⟩
  | append_singleton moves move ih =>
    have hprefix : moves <+: moves ++ [move] := List.prefix_append _ _
    obtain ⟨hw', hrooms'⟩ := ih (fun other hother => hrunning other (List.mem_append_left _ hother))
      fun c hc part hpart => hstays c hc part (hpart.trans hprefix)
    have hpresent := fun c hc => hstays c hc (moves ++ [move]) (List.prefix_refl _)
    have hbrings : ∀ key, Brings (Machine.final (moveOn programs) w moves) move key →
        key ∈ Brought w (moves ++ [move]) := fun key hkey => ⟨moves, move, [], rfl, hkey⟩
    obtain ⟨hcommit, habort⟩ := hrunning move (List.mem_append_right _ (List.mem_singleton_self move))
    rw [Machine.final_append, Machine.final_cons, Machine.final_nil] at hpresent ⊢
    rcases moveOn_cases move (Machine.final (moveOn programs) w moves) with hacts | hblocked
    · refine ⟨programs_lawful.orderly hacts hw', acts_rooms hacts hw' hrooms' (brought_snoc_subset _ _ _) ?_ hpresent
        hcommit habort⟩
      exact fun c _ hnone hrow hchanged => hbrings _ ⟨hnone, hrow, hchanged⟩
    · rw [hblocked] at hpresent ⊢
      obtain ⟨session, phase, hsession, hprogram, hroomy⟩ := hrooms'
      exact ⟨hw', session, phase, hsession, hprogram, hroomy.widen (brought_snoc_subset _ _ _) hpresent⟩

end PgWindows

end Runlimit
