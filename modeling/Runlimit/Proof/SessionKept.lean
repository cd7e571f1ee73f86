import Runlimit.Proof.SessionSteps

/-!
# What an admission has read stays so

Between its locks and its commit an admission relies on what it has read: the rows of its keys, which it has
locked, their absence, which its advisory locks keep, and the counts of the shards it will insert into. `Kept` says
at each phase what the admission may rely on; the statements of the admission establish it, and no
commit of another session takes it away, unless another writer inserts one of its keys
(`AdmissionPhase.Kept.undisturbed`).
-/

namespace Runlimit

open Ledger

namespace PgWindows

variable [Sha2] {w w' : World} {i j : ℕ} {session session' : Session}

/-! ## What a batch reads -/

section Alike

variable {checks : List (Check FixedWindowPolicy)} {tables tables' : WindowTables} {now : ℕ}

/-- Two tables that a batch cannot tell apart: the rows of its keys, and the counts of the shards it inserts into. -/
structure Alike (checks : List (Check FixedWindowPolicy)) (tables tables' : WindowTables) : Prop where
  rows : ∀ c ∈ checks, tables'.rows.lookup c.counterKey = tables.rows.lookup c.counterKey
  counts : ∀ shard ∈ insertedShards tables checks, tables'.rowCounts shard = tables.rowCounts shard

/-- The same keys are missing. -/
theorem Alike.missingKeys_eq (h : Alike checks tables tables') : missingKeys tables' checks = missingKeys tables checks := by
  unfold missingKeys
  refine List.filterMap_congr ?_
  intro p hp
  rw [h.rows p.1 (List.fst_mem_of_mem_zipIdx hp)]

/-- So the same shards are locked for them. -/
theorem Alike.insertedShards_eq (h : Alike checks tables tables') :
    insertedShards tables' checks = insertedShards tables checks := by
  unfold insertedShards
  rw [h.missingKeys_eq]

/-- And the same capacities are read. -/
theorem Alike.capacityRows_eq (h : Alike checks tables tables') :
    capacityRows (missingKeys tables' checks) tables'.rowCounts = capacityRows (missingKeys tables checks) tables.rowCounts := by
  rw [h.missingKeys_eq]
  refine List.map_congr_left ?_
  intro p hp
  have hshard : p.2 ∈ insertedShards tables checks := by
    unfold insertedShards targetShards
    rw [List.mem_dedup, List.mem_insertionSort]
    exact List.mem_map_of_mem hp
  rw [h.counts p.2 hshard]

/-- The quota preflight reads the rows of the batch only. -/
theorem firstDenialRow_congr : ∀ {checks : List (Check FixedWindowPolicy)} {index : ℕ},
    (∀ c ∈ checks, tables'.rows.lookup c.counterKey = tables.rows.lookup c.counterKey) →
    firstDenialRow tables' now index checks = firstDenialRow tables now index checks := by
  intro checks
  induction checks with
  | nil => exact fun _ => rfl
  | cons c rest ih =>
    intro index h
    rw [List.forall_mem_cons] at h
    unfold firstDenialRow
    rw [h.1, ih h.2]

/-- The same quota is denied, or none. -/
theorem Alike.preflightBatch_eq (h : Alike checks tables tables') :
    preflightBatch tables' now checks = preflightBatch tables now checks := by
  unfold preflightBatch
  rw [firstDenialRow_congr h.rows]

/-- Each check consumes from the same row. -/
theorem Alike.consumedRow_eq (h : Alike checks tables tables') {c : Check FixedWindowPolicy} (hc : c ∈ checks) :
    consumedRow tables' now c = consumedRow tables now c := by
  unfold consumedRow
  rw [h.rows c hc]

/-- As many rows are added to a shard. -/
theorem Alike.rowless_eq (h : Alike checks tables tables') (shard : CapacityShard) :
    rowless tables' checks shard = rowless tables checks shard := by
  unfold rowless
  refine List.countP_congr ?_
  intro c hc
  rw [h.rows c hc]

/-- Nothing is added to a shard into which the batch does not insert. -/
theorem rowless_eq_zero {shard : CapacityShard} (h : shard ∉ insertedShards tables checks) :
    rowless tables checks shard = 0 := by
  unfold rowless
  rw [List.countP_eq_zero]
  intro c hc hrow
  rw [Bool.and_eq_true, Option.isNone_iff_eq_none, decide_eq_true_iff] at hrow
  exact h (mem_insertedShards.2 ⟨c, hc, hrow.1, hrow.2⟩)

/-- What the two preflights of a batch have found. -/
structure Clear (config : PostgresConfig) (now : ℕ) (checks : List (Check FixedWindowPolicy)) (tables : WindowTables) :
    Prop where
  capacity : firstCapacityDenial (checks.map fun check => capacityShard check.counterKey) config.maximumRowsPerShard
    (fun _ => 0) (capacityRows (missingKeys tables checks) tables.rowCounts) = .ok none
  quota : preflightBatch tables now checks = .ok none

/-- What was clear stays clear. -/
theorem Clear.congr {config : PostgresConfig} (h : Clear config now checks tables) (halike : Alike checks tables tables') :
    Clear config now checks tables' where
  capacity := by
    rw [halike.capacityRows_eq]
    exact h.capacity
  quota := by
    rw [halike.preflightBatch_eq]
    exact h.quota

/-- Nothing of a batch that is clear is refused. -/
theorem Clear.firstRefused_eq {config : PostgresConfig} (h : Clear config now checks tables) :
    firstRefused config tables now checks = none := by
  have hcapacity := h.capacity
  have hquota := h.quota
  rw [capacityPreflight_eq, Except.ok.injEq] at hcapacity
  rw [preflightBatch_eq, Except.ok.injEq] at hquota
  -- the two preflights, one after the other, are one scan for the first refused check
  have hmerged := @firstOf_firstWhere _ (full tables config.maximumRowsPerShard) (fun _ => spent tables now) checks []
  rw [hcapacity, hquota] at hmerged
  exact hmerged.symm

end Alike

/-! ## What an admission relies on -/

section Kept

variable {committed committed' : WindowStore} {txn : WindowTxn} {config : PostgresConfig}
  {checks : List (Check FixedWindowPolicy)} {phase : AdmissionPhase}

/-- Nothing is written, and the rows of the batch are locked or absent. -/
structure Settled (committed : WindowStore) (txn : WindowTxn) (checks : List (Check FixedWindowPolicy)) : Prop where
  clean : txn.view committed = committed
  rows : ∀ c ∈ checks, c.counterKey ∈ txn.rows ∨ committed.rows.lookup c.counterKey = none

/-- The shards of the rows to insert are locked. -/
def Covered (committed : WindowStore) (txn : WindowTxn) (checks : List (Check FixedWindowPolicy)) : Prop :=
  ∀ shard ∈ insertedShards (WindowStore.tables committed) checks, shard ∈ txn.shards

/-- What an allowed admission will commit, and return. -/
structure Consumed (committed : WindowStore) (txn : WindowTxn) (config : PostgresConfig)
    (checks : List (Check FixedWindowPolicy)) (samples : Samples) (allowances : List PendingAllowance) : Prop where
  rows : ∀ c ∈ checks, c.counterKey ∈ txn.rows
  covered : Covered committed txn checks
  clear : Clear config samples.databaseNow checks (WindowStore.tables committed)
  view_eq : txn.view committed = (consumedTables (WindowStore.tables committed) samples.databaseNow checks).store
  allowances_eq : allowances = checks.map (granted (WindowStore.tables committed) samples.databaseNow)

/-- What an admission may rely on, at each phase. -/
def AdmissionPhase.Kept (committed : WindowStore) (txn : WindowTxn) (config : PostgresConfig)
    (checks : List (Check FixedWindowPolicy)) : AdmissionPhase → Prop
  | .advisoryLocks _ => txn.view committed = committed
  | .rowLocks todo => txn.view committed = committed ∧ ∀ c ∈ checks,
      c.counterKey ∈ txn.rows ∨ c.counterKey ∈ todo ∨ committed.rows.lookup c.counterKey = none
  | .capacityLocks missing todo => Settled committed txn checks ∧
      missing = missingKeys (WindowStore.tables committed) checks ∧
      ∀ shard ∈ insertedShards (WindowStore.tables committed) checks, shard ∈ txn.shards ∨ shard ∈ todo
  | .preflight capacityDenial => Settled committed txn checks ∧ Covered committed txn checks ∧
      firstCapacityDenial (checks.map fun check => capacityShard check.counterKey) config.maximumRowsPerShard
        (fun _ => 0) (capacityRows (missingKeys (WindowStore.tables committed) checks) committed.ledger) = .ok capacityDenial
  | .upsert databaseNow _ => Settled committed txn checks ∧ Covered committed txn checks ∧
      Clear config databaseNow checks (WindowStore.tables committed)
  | .allowed samples allowances => Consumed committed txn config checks samples allowances
  | .denied _ _ => True
  | .failed _ => False

/-- A transaction that has written nothing sees the committed tables. -/
theorem view_of_clean (hclean : session.txn.view w.committed = w.committed) :
    view w session = WindowStore.tables w.committed := by
  unfold view
  rw [hclean]

/-- The rows that an admission lists are those that its keys have. -/
theorem mem_existingRows_or {tables : WindowTables} {c : Check FixedWindowPolicy} (hc : c ∈ checks) :
    c.counterKey ∈ existingRows tables checks ∨ tables.rows.lookup c.counterKey = none := by
  by_cases hrow : tables.rows.lookup c.counterKey = none
  · exact Or.inr hrow
  · left
    unfold existingRows
    rw [List.mem_filter, List.mem_insertionSort]
    exact ⟨List.mem_map_of_mem hc, Option.isSome_iff_ne_none.2 hrow⟩

/-- **The statements of an admission keep what it relies on.** -/
theorem Advances.kept {responseNow : ℕ} (h : Advances w i responseNow session config checks phase session')
    (hne : checks ≠ []) (hnodup : (checks.map Check.counterKey).Nodup)
    (hkept : phase.Kept w.committed session.txn config checks) :
    ∃ phase', session'.program = .admission config checks phase' ∧
      phase'.Kept w.committed session'.txn config checks := by
  cases h with
  | lockId hfree => exact ⟨_, rfl, hkept⟩
  | findRows =>
    -- a row of the batch is on the list of rows to lock, or there is none
    refine ⟨_, rfl, hkept, fun c hc => ?_⟩
    rw [view_of_clean hkept]
    exact Or.inr (mem_existingRows_or hc)
  | @skipRow key todo hgone =>
    -- deleted since it was listed: `FOR UPDATE` returns nothing for it
    obtain ⟨hclean, hrows⟩ := hkept
    rw [view_of_clean hclean] at hgone
    refine ⟨_, rfl, hclean, fun c hc => ?_⟩
    rcases hrows c hc with hlocked | htodo | hnone
    · exact Or.inl hlocked
    · rcases List.mem_cons.1 htodo with heq | hmem
      · exact Or.inr (Or.inr (heq ▸ hgone))
      · exact Or.inr (Or.inl hmem)
    · exact Or.inr (Or.inr hnone)
  | @lockRow key todo hpresent hfree =>
    obtain ⟨hclean, hrows⟩ := hkept
    refine ⟨_, rfl, (Txn.view_lock _ _ _ _).trans hclean, fun c hc => ?_⟩
    exact or_assoc.1 ((or_assoc.2 (hrows c hc)).imp_left held_or_left)
  | findMissing =>
    -- what has not been locked is missing, and its shards are to be locked
    obtain ⟨hclean, hrows⟩ := hkept
    refine ⟨_, rfl, ⟨hclean, fun c hc => ?_⟩, ?_, ?_⟩
    · rcases hrows c hc with hlocked | htodo | hnone
      · exact Or.inl hlocked
      · cases htodo
      · exact Or.inr hnone
    · rw [view_of_clean hclean]
    · intro shard hshard
      rw [view_of_clean hclean]
      exact Or.inr hshard
  | @lockShard missing shard todo hfree =>
    obtain ⟨hsettled, hmissing, hshards⟩ := hkept
    refine ⟨_, rfl, ⟨(Txn.view_lock _ _ _ _).trans hsettled.clean, fun c hc => ?_⟩, hmissing, ?_⟩
    · exact (hsettled.rows c hc).imp_left (Finset.mem_union_left _)
    · exact fun shard' hshard' => held_or_left (hshards shard' hshard')
  | @readCapacity missing =>
    -- the counts are read under the locks of their shards
    obtain ⟨hsettled, rfl, hshards⟩ := hkept
    rw [view_of_clean hsettled.clean]
    have hread := @capacityPreflight_eq _ (WindowStore.tables w.committed) config.maximumRowsPerShard checks
    refine ⟨_, rfl, ?_⟩
    rw [hread]
    refine ⟨hsettled, fun shard hshard => ?_, hread⟩
    rcases hshards shard hshard with hlocked | htodo
    · exact hlocked
    · cases htodo
  | @preflight capacityDenial =>
    obtain ⟨hsettled, hcovered, hcapacity⟩ := hkept
    rw [view_of_clean hsettled.clean]
    refine ⟨_, rfl, ?_⟩
    have hquota := @preflightBatch_eq _ (WindowStore.tables w.committed) w.now checks
    rw [hquota]
    change AdmissionPhase.Kept _ session.txn _ _ (afterPreflight _ _ capacityDenial _)
    -- the admission goes on only if neither preflight found a denial
    unfold afterPreflight
    cases hfirst : firstOf capacityDenial (firstWhere (fun _ => spent (WindowStore.tables w.committed) w.now) [] checks) with
    | some denied => exact trivial
    | none =>
      obtain ⟨hcapacityNone, hquotaNone⟩ := firstOf_eq_none hfirst
      rw [hcapacityNone] at hcapacity
      rw [hquotaNone] at hquota
      exact ⟨hsettled, hcovered, hcapacity, hquota⟩
  | @upserted databaseNow preflightResponse allowances writes hrows hshards hupsert =>
    -- the preflights leave nothing to refuse, so the upsert returns all of its rows
    obtain ⟨hsettled, hcovered, hclear⟩ := hkept
    rw [view_of_clean hsettled.clean] at hupsert ⊢
    obtain ⟨hfull, -, hspent⟩ := firstRefused_none hclear.firstRefused_eq
    rw [upsertBatch_eq config.rows_le hne hspent hfull] at hupsert
    cases hupsert
    have hwritten := upsert_counted hnodup (upsertBatch_writes (upsertBatch_eq config.rows_le hne hspent hfull))
    rw [consumedWrites_apply, ← view_of_clean hsettled.clean] at hwritten
    refine ⟨_, rfl, ?_, ?_, hclear, ?_, rfl⟩
    · intro c hc
      exact Finset.mem_union_right _ (List.mem_toFinset.2 (List.mem_map_of_mem hc))
    · intro shard hshard
      exact Finset.mem_union_left _ (hcovered shard hshard)
    · rw [consumedWrites_apply, ← view_of_clean hsettled.clean]
      exact Txn.view_wrote hwritten
  | @upsertFailed databaseNow preflightResponse error hupsert =>
    -- and it does not fail
    obtain ⟨hsettled, -, hclear⟩ := hkept
    rw [view_of_clean hsettled.clean] at hupsert
    obtain ⟨hfull, -, hspent⟩ := firstRefused_none hclear.firstRefused_eq
    rw [upsertBatch_eq config.rows_le hne hspent hfull] at hupsert
    cases hupsert

/-- A batch cannot tell apart the tables before and after a commit of another session. -/
theorem alike_of_undisturbed (h : Undisturbed capacityShard committed committed' txn)
    (hrows : ∀ c ∈ checks, c.counterKey ∈ txn.rows ∨
      (committed.rows.lookup c.counterKey = none ∧ committed'.rows.lookup c.counterKey = none))
    (hcovered : Covered committed txn checks) :
    Alike checks (WindowStore.tables committed) (WindowStore.tables committed') where
  rows c hc := by
    rcases hrows c hc with hlocked | ⟨hnone, hnone'⟩
    · exact h.rows _ hlocked
    · exact hnone'.trans hnone.symm
  counts shard hshard := h.shards shard (hcovered shard hshard)

/-- What an allowed admission will commit does not depend on the commits of the others. -/
theorem Consumed.undisturbed {samples : Samples} {allowances : List PendingAllowance}
    (hkept : Consumed committed txn config checks samples allowances) (h : Undisturbed capacityShard committed committed' txn)
    (hnodup : (checks.map Check.counterKey).Nodup) : Consumed committed' txn config checks samples allowances := by
  have halike := alike_of_undisturbed h (fun c hc => Or.inl (hkept.rows c hc)) hkept.covered
  have hcovered' : Covered committed' txn checks := by
    intro shard hshard
    rw [halike.insertedShards_eq] at hshard
    exact hkept.covered shard hshard
  obtain ⟨hinputs, hothers⟩ := @lookup_consumedTables _ (WindowStore.tables committed) checks samples.databaseNow hnodup
  obtain ⟨hinputs', hothers'⟩ := @lookup_consumedTables _ (WindowStore.tables committed') checks samples.databaseNow hnodup
  refine ⟨hkept.rows, hcovered', hkept.clear.congr halike, ?_, ?_⟩
  · refine Tables.ext (funext fun shard => ?_) (Finmap.ext_lookup fun key => ?_)
    · -- the counts: locked ones have not moved, and nothing is added to the others
      change _ = committed'.ledger shard + rowless (WindowStore.tables committed') checks shard
      have hshard : (txn.view committed).ledger shard =
          committed.ledger shard + rowless (WindowStore.tables committed) checks shard :=
        congrFun (congrArg Tables.ledger hkept.view_eq) shard
      rw [halike.rowless_eq]
      rw [Txn.view_ledger] at hshard ⊢
      split
      · rename_i hmem
        rw [if_pos hmem] at hshard
        rw [hshard, h.shards shard hmem]
      · rename_i hmem
        rw [rowless_eq_zero fun hinserted => hmem (hkept.covered shard hinserted), Nat.add_zero]
    · change _ = (consumedTables (WindowStore.tables committed') samples.databaseNow checks).rows.lookup key
      have hkey : (txn.view committed).rows.lookup key =
          (consumedTables (WindowStore.tables committed) samples.databaseNow checks).rows.lookup key :=
        congrArg (fun tables => Finmap.lookup key (Tables.rows tables)) hkept.view_eq
      -- the rows: those of the batch are locked, the others are read from the database
      by_cases hinput : ∃ c ∈ checks, c.counterKey = key
      · obtain ⟨c, hc, rfl⟩ := hinput
        rw [hinputs c hc] at hkey
        rw [hinputs' c hc, halike.consumedRow_eq hc, ← hkey, Txn.view_lookup, if_pos (hkept.rows c hc), Txn.view_lookup,
          if_pos (hkept.rows c hc)]
      · have hnot : ∀ c ∈ checks, c.counterKey ≠ key := fun c hc heq => hinput ⟨c, hc, heq⟩
        rw [hothers key hnot] at hkey
        rw [hothers' key hnot]
        change _ = committed'.rows.lookup key
        rw [Txn.view_lookup] at hkey ⊢
        split
        · rename_i hmem
          rw [if_pos hmem] at hkey
          rw [hkey]
          exact (h.rows key hmem).symm
        · rfl
  · rw [hkept.allowances_eq]
    refine List.map_congr_left fun c hc => ?_
    unfold granted
    simp only [halike.consumedRow_eq hc]

/-- **No commit of another session takes it away.** -/
theorem AdmissionPhase.Kept.undisturbed (hkept : phase.Kept committed txn config checks)
    (h : Undisturbed capacityShard committed committed' txn) (hnodup : (checks.map Check.counterKey).Nodup)
    (habsent : (∀ todo, phase ≠ .advisoryLocks todo) → ∀ c ∈ checks, committed.rows.lookup c.counterKey = none →
      committed'.rows.lookup c.counterKey = none) : phase.Kept committed' txn config checks := by
  have hsettled : (∀ todo, phase ≠ .advisoryLocks todo) → Settled committed txn checks → Settled committed' txn checks := by
    intro hpast hsettled
    refine ⟨h.clean hsettled.clean, fun c hc => ?_⟩
    exact (hsettled.rows c hc).imp_right (habsent hpast c hc)
  have halike : (∀ todo, phase ≠ .advisoryLocks todo) → Settled committed txn checks → Covered committed txn checks →
      Alike checks (WindowStore.tables committed) (WindowStore.tables committed') := by
    intro hpast hsettled hcovered
    refine alike_of_undisturbed h (fun c hc => ?_) hcovered
    exact (hsettled.rows c hc).imp_right fun hnone => ⟨hnone, habsent hpast c hc hnone⟩
  cases phase with
  | advisoryLocks todo => exact h.clean hkept
  | rowLocks todo =>
    -- a row that is missing stays missing: its inserter would need the advisory lock
    obtain ⟨hclean, hrows⟩ := hkept
    refine ⟨h.clean hclean, fun c hc => ?_⟩
    exact (hrows c hc).imp_right (Or.imp_right (habsent nofun c hc))
  | capacityLocks missing todo =>
    obtain ⟨hclean, hmissing, hshards⟩ := hkept
    -- the counts may still change, and are not read yet
    have hkeys : missingKeys (WindowStore.tables committed') checks = missingKeys (WindowStore.tables committed) checks := by
      unfold missingKeys
      refine List.filterMap_congr fun p hp => ?_
      have hrow : committed'.rows.lookup p.1.counterKey = committed.rows.lookup p.1.counterKey := by
        rcases hclean.rows p.1 (List.fst_mem_of_mem_zipIdx hp) with hlocked | hnone
        · exact h.rows _ hlocked
        · rw [hnone, habsent nofun p.1 (List.fst_mem_of_mem_zipIdx hp) hnone]
      change (if (committed'.rows.lookup p.1.counterKey).isNone then _ else _) = _
      rw [hrow]
      rfl
    refine ⟨hsettled nofun hclean, hmissing.trans hkeys.symm, ?_⟩
    unfold insertedShards
    rw [hkeys]
    exact hshards
  | preflight capacityDenial =>
    obtain ⟨hclean, hcovered, hcapacity⟩ := hkept
    -- from here on the shards are locked, and the batch cannot tell that anything has changed
    have hsame := halike nofun hclean hcovered
    refine ⟨hsettled nofun hclean, ?_, ?_⟩
    · unfold Covered
      rw [hsame.insertedShards_eq]
      exact hcovered
    · have hrows := hsame.capacityRows_eq
      change capacityRows _ committed'.ledger = capacityRows _ committed.ledger at hrows
      rw [hrows]
      exact hcapacity
  | upsert databaseNow preflightResponse =>
    obtain ⟨hclean, hcovered, hclear⟩ := hkept
    have hsame := halike nofun hclean hcovered
    refine ⟨hsettled nofun hclean, ?_, hclear.congr hsame⟩
    unfold Covered
    rw [hsame.insertedShards_eq]
    exact hcovered
  | allowed samples allowances => exact Consumed.undisturbed hkept h hnodup
  | denied index denial => exact trivial
  | failed error => exact hkept

/-! ## Commits -/

/-- What a commit inserts, by what it reports. -/
theorem commit_inserts (hw : Orderly w) (hsession : w.sessions.lookup i = some session) {reported : Report}
    (hreported : report session = some reported) {key : CounterKey} (hnone : w.committed.rows.lookup key = none)
    (hkey : (session.txn.view w.committed).rows.lookup key ≠ none) :
    advisoryLockId key ∈ session.advisory ∨ ∃ inserted, reported = .changed inserted ∧ key ∈ inserted := by
  have hpresent : key ∈ (session.txn.view w.committed).rows.keys := by
    by_contra hnot
    exact hkey (Finmap.notMem_keys_iff.1 hnot)
  -- a session inserts only rows that its program names
  have hnames : session.program.Names key := by
    rcases hw.named i session hsession key hpresent with hcommitted | hnames
    · exact absurd hcommitted (Finmap.notMem_keys_iff.2 hnone)
    · exact hnames
  unfold report at hreported
  split at hreported
  · rename_i config checks samples allowances hprogram
    rw [hprogram] at hnames
    obtain ⟨c, hc, rfl⟩ := hnames
    left
    rcases (hw.good i session hsession).held _ _ _ hprogram c hc with hmem | ⟨todo, htodo, -⟩
    · exact hmem
    · cases htodo
  · rename_i hprogram
    -- a cleanup names none
    rw [hprogram] at hnames
    cases hnames
  · rename_i inserted hprogram
    rw [hprogram] at hnames
    cases hreported
    exact Or.inr ⟨inserted, rfl, hnames⟩
  · cases hreported

/-- A key that an admission has found absent, under its advisory lock, is inserted by other writers only. -/
theorem inserted_by_other (hw : Orderly w) {other : Session} (hne : i ≠ j)
    (hsession : w.sessions.lookup i = some session) (hprogram : session.program = .admission config checks phase)
    (hpast : ∀ todo, phase ≠ .advisoryLocks todo) (hother : w.sessions.lookup j = some other) {reported : Report}
    (hreported : report other = some reported) {c : Check FixedWindowPolicy} (hc : c ∈ checks)
    (hnone : w.committed.rows.lookup c.counterKey = none)
    (hrow : (other.txn.view w.committed).rows.lookup c.counterKey ≠ none) :
    ∃ inserted, reported = .changed inserted := by
  rcases commit_inserts hw hother hreported hnone hrow with hlocked | ⟨inserted, hchanged, -⟩
  · rcases (hw.good i session hsession).held _ _ _ hprogram c hc with hheld | ⟨todo, htodo, -⟩
    · have hexclusive := hw.exclusive i j session other hne hsession hother (.advisory _) (holds_advisory.2 hheld)
      rw [holds_advisory.2 hlocked] at hexclusive
      cases hexclusive
    · exact absurd htodo (hpast todo)
  · exact ⟨inserted, hchanged⟩

end Kept

end PgWindows

end Runlimit
