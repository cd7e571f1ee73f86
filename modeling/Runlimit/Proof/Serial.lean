import Runlimit.Proof.Protocol
import Runlimit.Proof.LedgerExact
import Runlimit.Proof.WindowBound

/-!
# Replicas and cleaners are serializable

A run of admissions and cleanups, in any interleaving and with any rollbacks, does what its commits do one after
another: an admission commits and answers what it would have committed and answered alone, on the tables of its
commit, and so does a cleanup (`Protocol.alone`). An upsert that follows a successful preflight does not fail.

So the charges to a key, in the order of their commits, are anchored in windows that cost at most the limit. An
admission samples the clock under the lock of its keys, and a cleanup deletes a row only when its window has closed:
what `Recorded` says of the row of a key holds at the sample of every admission still to commit.
-/

namespace Runlimit

open Ledger Window

namespace PgWindows

variable [Sha2] {w w' : World} {i : ℕ} {session session' : Session}

/-! ## Commits -/

/-- What a committed transaction does by itself. -/
def Alone : Report → WindowStore → WindowStore → Prop
  | .admitted config samples checks admission, store, store' =>
    runChecks config samples checks .ok store.tables = (.ok admission, store'.tables)
  | .cleaned maximumRows sampledAt deleted, store, store' =>
    ∃ run : CleanupRun, run.maximumRows = maximumRows ∧ run.sampledAt = sampledAt ∧
      cleanupExpired run store.tables = (.ok deleted.length, store'.tables)
  | .changed _, _, _ => False

/-- An allowed admission commits what it would commit alone. -/
theorem Consumed.alone {committed : WindowStore} {txn : WindowTxn} {config : PostgresConfig}
    {checks : List (Check FixedWindowPolicy)} {samples : Samples} {allowances : List PendingAllowance}
    (h : Consumed committed txn config checks samples allowances) (hne : checks ≠ []) :
    runChecks config samples checks .ok committed.tables =
      (.ok (admissionOf checks (authoritativeElapsed samples.databaseNow samples.upsertResponse) (.allowed allowances)),
        WindowStore.tables (txn.view committed)) := by
  have hexecute := executeBatch_allowed hne h.clear.firstRefused_eq
  unfold runChecks transact
  simp only [hexecute, except_ok_bind, consumedWrites_apply]
  rw [h.view_eq, h.allowances_eq]
  rfl

omit [Sha2] in
/-- The trigger deletes what the ledger counts. -/
theorem deleteRows_total {tables : WindowTables} {deleted : List CounterKey}
    (h : ∀ shard, (deleted.map capacityShard).count shard ≤ tables.rowCounts shard) :
    ∃ tables', deleteRows deleted tables = .ok tables' := by
  unfold deleteRows capacityAfterDelete
  simp only
  rw [@mapM_ok _ _ _ _ fun shard => (shard, tables.rowCounts shard - (deleted.map capacityShard).count shard)]
  · exact ⟨_, rfl⟩
  · intro shard _
    rw [if_neg (Nat.not_lt.2 (h shard))]

omit [Sha2] in
/-- What the rows of a `DELETE` leave. -/
theorem deleteRows_eq {tables tables' : WindowTables} {deleted : List CounterKey}
    (hrows : ∀ key, tables'.rows.lookup key = if key ∈ deleted then none else tables.rows.lookup key)
    (hcounts : ∀ shard, tables'.rowCounts shard + (deleted.map capacityShard).count shard = tables.rowCounts shard) :
    deleteRows deleted tables = .ok tables' := by
  obtain ⟨result, hresult⟩ := @deleteRows_total tables deleted fun shard => by
    have hcount := hcounts shard
    omega
  rw [hresult]
  have hlookup := deleteRows_lookup hresult
  obtain ⟨counts, hledger, hok⟩ := except_bind_eq_ok.1 hresult
  cases hok
  -- the ledger and the rows, each determined by its equation
  refine congrArg Except.ok (WindowTables.ext (funext fun shard => ?_) (Finmap.ext_lookup fun key => ?_))
  · exact Nat.add_right_cancel ((capacityAfterDelete_ok hledger shard).trans (hcounts shard).symm)
  · rw [hrows key]
    exact hlookup key

omit [Sha2] in
/-- A cleanup commits what it would commit alone, among rows that are locked but for those it deletes. -/
theorem Removed.alone {committed : WindowStore} {txn : WindowTxn} {maximumRows sampledAt : ℕ}
    {picked deleted : List CounterKey} (h : Removed committed txn deleted)
    (hpicked : Picked committed txn maximumRows sampledAt picked) (hsubset : ∀ key ∈ deleted, key ∈ picked) :
    ∃ run : CleanupRun, run.maximumRows = maximumRows ∧ run.sampledAt = sampledAt ∧
      cleanupExpired run committed.tables = (.ok deleted.length, WindowStore.tables (txn.view committed)) := by
  refine ⟨⟨maximumRows, sampledAt, ∅, deleted⟩, rfl, rfl, ?_⟩
  have hlength : deleted.length ≤ maximumRows :=
    ((List.subperm_of_subset h.nodup hsubset).length_le).trans hpicked.length_le
  have hexpired : deleted.filter (expiredAt ⟨maximumRows, sampledAt, ∅, deleted⟩ committed.tables) = deleted := by
    rw [List.filter_eq_self]
    intro key hkey
    obtain ⟨row, hrow, hle⟩ := hpicked.expired key (hsubset key hkey)
    unfold expiredAt
    rw [show (WindowStore.tables committed).rows.lookup key = some row from hrow]
    exact decide_eq_true ⟨hle, Finset.notMem_empty _⟩
  -- the rows are deleted in the order of their expiry
  have hsorted := List.perm_insertionSort (fun a b => expiryOf committed.tables a ≤ expiryOf committed.tables b) deleted
  have hselect : cleanupSelect ⟨maximumRows, sampledAt, ∅, deleted⟩ committed.tables =
      deleted.insertionSort fun a b => expiryOf committed.tables a ≤ expiryOf committed.tables b := by
    unfold cleanupSelect
    simp only
    rw [h.nodup.dedup, hexpired, List.take_of_length_le]
    rw [hsorted.length_eq]
    exact hlength
  have hdelete : deleteRows (deleted.insertionSort fun a b => expiryOf committed.tables a ≤ expiryOf committed.tables b)
      committed.tables = .ok (WindowStore.tables (txn.view committed)) := by
    refine deleteRows_eq (fun key => ?_) fun shard => ?_
    · simp only [List.mem_insertionSort]
      exact h.rows_eq key
    · rw [(hsorted.map capacityShard).count_eq]
      exact h.ledger_eq shard
  unfold cleanupExpired
  simp only [hselect, hdelete, hsorted.length_eq]
  split
  · rename_i hzero
    obtain rfl : deleted = [] := List.length_eq_zero_iff.1 (by omega)
    exact congrArg (Prod.mk _) (Except.ok.inj hdelete)
  · rfl

/-- **Every commit does what its transaction does alone.** -/
theorem Protocol.alone (hw : Protocol w) {reported : Report} (hsession : w.sessions.lookup i = some session)
    (hreported : report session = some reported) : Alone reported w.committed (session.txn.view w.committed) := by
  unfold report at hreported
  split at hreported
  · rename_i config checks samples allowances hprogram
    cases hreported
    obtain ⟨hne, -⟩ := (hw.orderly.good i session hsession).valid _ _ _ hprogram
    exact Consumed.alone (hw.admissions i session config checks _ hsession hprogram) hne
  · rename_i maximumRows sampledAt picked deleted hprogram
    cases hreported
    obtain ⟨hpicked, hsubset, hremoved⟩ := hw.cleanups i session _ _ _ _ hsession hprogram
    exact hremoved.alone hpicked hsubset
  · rename_i inserted hprogram
    exact absurd hprogram (hw.known i session inserted hsession)
  · cases hreported

/-! ## The windows of a key -/

section Windows

variable {policy : FixedWindowPolicy} {key : CounterKey} {length now now' : ℕ} {windows : List Window}
  {history : List (ℕ × ℕ)}

/-- What an admission charges to a key when it commits. -/
def Report.charges (key : CounterKey) : Report → List (ℕ × ℕ)
  | .admitted _ samples checks _ =>
    (checks.filter fun c => decide (c.counterKey = key)).map fun c => (samples.databaseNow, c.cost)
  | .cleaned _ _ _ => []
  | .changed _ => []

/-- What a row knows of the windows of its key. -/
def RowWindow (length now : ℕ) (windows : List Window) : Option WindowRow → Prop
  | none => ∀ v ∈ windows, v.start + length ≤ now
  | some row => ∃ closed v, windows = closed ++ [v] ∧ v.start ≤ now ∧ row.expiresAt = v.start + length ∧
      row.used = cost v.charges

omit [Sha2] in
/-- A row knows as much later. -/
theorem RowWindow.mono {row : Option WindowRow} (h : RowWindow length now windows row) (hle : now ≤ now') :
    RowWindow length now' windows row := by
  cases row with
  | none => exact fun v hv => (h v hv).trans hle
  | some row =>
    obtain ⟨closed, v, hwindows, hstart, hexpires, hused⟩ := h
    exact ⟨closed, v, hwindows, hstart.trans hle, hexpires, hused⟩

omit [Sha2] in
/-- An expired row is as good as none. -/
theorem RowWindow.expired {row : WindowRow} (h : RowWindow length now windows (some row))
    (hanchored : Anchored length windows history) (hexpired : row.expiresAt ≤ now') :
    RowWindow length now' windows none := by
  obtain ⟨closed, v, rfl, hstart, hexpires, hused⟩ := h
  have hdisjoint := hanchored.disjoint
  rw [List.pairwise_append] at hdisjoint
  intro u hu
  rcases List.mem_append.1 hu with hu | hu
  · have hbefore := hdisjoint.2.2 u hu v (List.mem_singleton_self v)
    omega
  · rw [List.mem_singleton.1 hu]
    omega

/-- An admission opens a window or charges the open one. -/
theorem RowWindow.consumed {c : Check FixedWindowPolicy} {tables : WindowTables}
    (h : RowWindow (windowMicros c) now windows (tables.rows.lookup c.counterKey))
    (hanchored : Anchored (windowMicros c) windows history)
    (hwithin : ∀ v ∈ windows, cost v.charges ≤ c.policy.limit.get) (hspent : spent tables now c = none) :
    ∃ windows', Anchored (windowMicros c) windows' (history ++ [(now, c.cost)]) ∧
      (∀ v ∈ windows', cost v.charges ≤ c.policy.limit.get) ∧
      RowWindow (windowMicros c) now windows' (some (consumedRow tables now c)) := by
  -- without a row or with an expired one a window opens at the time of the decision
  have hopened : RowWindow (windowMicros c) now windows none →
      consumedRow tables now c = ⟨now, now + windowMicros c, c.cost⟩ →
      ∃ windows', Anchored (windowMicros c) windows' (history ++ [(now, c.cost)]) ∧
        (∀ v ∈ windows', cost v.charges ≤ c.policy.limit.get) ∧
        RowWindow (windowMicros c) now windows' (some (consumedRow tables now c)) := by
    intro hclosed hrow
    refine ⟨windows ++ [⟨now, [(now, c.cost)]⟩], hanchored.opened (windowMicros_pos c) hclosed, ?_, ?_⟩
    · intro v hv
      rcases List.mem_append.1 hv with hv | hv
      · exact hwithin v hv
      · rw [List.mem_singleton.1 hv]
        exact c.cost_le
    · rw [hrow]
      exact ⟨windows, _, rfl, le_rfl, rfl, rfl⟩
  cases hrow : tables.rows.lookup c.counterKey with
  | none =>
    rw [hrow] at h
    refine hopened h ?_
    unfold consumedRow
    rw [hrow]
    rfl
  | some row =>
    rw [hrow] at h
    by_cases hexpired : row.expiresAt ≤ now
    · refine hopened (h.expired hanchored hexpired) ?_
      unfold consumedRow PgWindows.consumed
      rw [hrow]
      exact if_pos hexpired
    · obtain ⟨closed, v, rfl, hstart, hexpires, hused⟩ := h
      have hcost : cost (v.charges ++ [(now, c.cost)]) = row.used + c.cost := by
        rw [cost_append, hused]
        rfl
      have hconsumed : consumedRow tables now c = { row with used := row.used + c.cost } := by
        unfold consumedRow PgWindows.consumed
        rw [hrow]
        exact if_neg hexpired
      -- the open window is charged, and the preflight has checked the sum
      have hfits := (upserted_of_spent hspent).2.2
      rw [hconsumed] at hfits ⊢
      refine ⟨closed ++ [⟨v.start, v.charges ++ [(now, c.cost)]⟩], hanchored.charged hstart (by omega), ?_,
        closed, _, rfl, hstart, hexpires, hcost.symm⟩
      intro u hu
      rcases List.mem_append.1 hu with hu | hu
      · exact hwithin u (List.mem_append_left _ hu)
      · rw [List.mem_singleton.1 hu, hcost]
        exact hfits

/-- The time an admission has decided at. -/
def AdmissionPhase.decidedAt : AdmissionPhase → Option ℕ
  | .upsert databaseNow _ => some databaseNow
  | .allowed samples _ => some samples.databaseNow
  | _ => none

/-- An admission decides at the time of its preflight. -/
theorem Advances.decidedAt {responseNow : ℕ} {config : PostgresConfig} {checks : List (Check FixedWindowPolicy)}
    {phase phase' : AdmissionPhase} (h : Advances w i responseNow session config checks phase session')
    (hprogram : session'.program = .admission config checks phase') (hdecided : phase'.decidedAt = some now) :
    now = w.now ∨ phase.decidedAt = some now := by
  cases h with
  | lockId hfree =>
    cases hprogram
    cases hdecided
  | findRows =>
    cases hprogram
    cases hdecided
  | skipRow hgone =>
    cases hprogram
    cases hdecided
  | lockRow hpresent hfree =>
    cases hprogram
    cases hdecided
  | findMissing =>
    cases hprogram
    cases hdecided
  | lockShard hfree =>
    cases hprogram
    cases hdecided
  | readCapacity =>
    cases hprogram
    generalize firstCapacityDenial _ _ _ _ = result at hdecided
    cases result with
    | error error => cases hdecided
    | ok denial => cases hdecided
  | @preflight capacityDenial =>
    cases hprogram
    cases hquota : preflightBatch (view w session) w.now checks with
    | error error =>
      rw [hquota] at hdecided
      cases hdecided
    | ok quotaDenial =>
      rw [hquota] at hdecided
      change AdmissionPhase.decidedAt (afterPreflight _ _ capacityDenial quotaDenial) = _ at hdecided
      -- only the preflight reads the time, which is the time of the database then
      unfold afterPreflight at hdecided
      split at hdecided
      · cases hdecided
      · cases hdecided
        exact Or.inl rfl
  | upserted hrows hshards hupsert =>
    cases hprogram
    cases hdecided
    exact Or.inr rfl
  | upsertFailed hupsert =>
    cases hprogram
    cases hdecided

/-- The row of a key records the charges to it, at any time an admission of the key may have decided at. -/
structure Recorded (policy : FixedWindowPolicy) (key : CounterKey) (w : World) (windows : List Window)
    (history : List (ℕ × ℕ)) : Prop where
  anchored : Anchored (1000 * policy.window.millis) windows history
  within : ∀ v ∈ windows, cost v.charges ≤ policy.limit.get
  last : RowWindow (1000 * policy.window.millis) w.now windows (w.committed.rows.lookup key)
  same : ∀ i session config checks phase, w.sessions.lookup i = some session →
    session.program = .admission config checks phase → ∀ c ∈ checks, c.counterKey = key → c.policy.SameWindow policy
  decided : ∀ i session config checks phase now, w.sessions.lookup i = some session →
    session.program = .admission config checks phase → (∃ c ∈ checks, c.counterKey = key) →
    phase.decidedAt = some now →
    now ≤ w.now ∧ RowWindow (1000 * policy.window.millis) now windows (w.committed.rows.lookup key)
  cleaning : ∀ i session maximumRows sampledAt picked phase, w.sessions.lookup i = some session →
    session.program = .cleanup maximumRows sampledAt picked phase → sampledAt ≤ w.now

/-- A move that opens no admission of the key with another limit or window. -/
def SamePolicy (policy : FixedWindowPolicy) (key : CounterKey) (move : Move) : Prop :=
  ∀ i config request, move = .start i (.admission config request) → ∀ c ∈ request.checks, c.counterKey = key →
    c.policy.SameWindow policy

/-- Nothing has been charged to a key without a row. -/
theorem recorded_start {store : WindowStore} (h : store.rows.lookup key = none) :
    Recorded policy key (World.start store) [] [] := by
  have hnone : ∀ {i : ℕ} {session : Session}, (World.start store : World).sessions.lookup i ≠ some session := by
    intro i session hsession
    rw [show (World.start store : World).sessions = ∅ from rfl, Finmap.lookup_empty] at hsession
    cases hsession
  refine ⟨Anchored.nil, nofun, ?_, fun _ _ _ _ _ hsession => absurd hsession hnone,
    fun _ _ _ _ _ _ hsession => absurd hsession hnone, fun _ _ _ _ _ _ hsession => absurd hsession hnone⟩
  rw [show (World.start store : World).committed.rows.lookup key = none from h]
  nofun

theorem Recorded.opened {what : Start} {program : Program} (h : Recorded policy key w windows history)
    (hsame : SamePolicy policy key (.start i what)) (hopens : opens w what = some program) :
    Recorded policy key { w with sessions := w.sessions.insert i ⟨∅, .new w.committed, program⟩ } windows history := by
  have hcases : ∀ {j : ℕ} {other : Session},
      (w.sessions.insert i ⟨∅, .new w.committed, program⟩).lookup j = some other →
      other.program = program ∨ w.sessions.lookup j = some other := by
    intro j other hother
    rw [Finmap.lookup_insert_if] at hother
    split at hother
    · cases hother
      exact Or.inl rfl
    · exact Or.inr hother
  refine ⟨h.anchored, h.within, h.last, ?_, ?_, ?_⟩
  · intro j other config checks phase hother hprogram
    rcases hcases hother with hnew | hother
    · rw [hnew] at hprogram
      cases opens_cases hopens with
      | admission haccepts =>
        cases hprogram
        exact hsame i _ _ rfl
      | cleanup maximumRows => cases hprogram
      | other => cases hprogram
    · exact h.same j other config checks phase hother hprogram
  · intro j other config checks phase now hother hprogram hkey hdecided
    rcases hcases hother with hnew | hother
    · rw [hnew] at hprogram
      cases opens_cases hopens with
      | admission haccepts =>
        cases hprogram
        cases hdecided
      | cleanup maximumRows => cases hprogram
      | other => cases hprogram
    · exact h.decided j other config checks phase now hother hprogram hkey hdecided
  · intro j other maximumRows sampledAt picked phase hother hprogram
    rcases hcases hother with hnew | hother
    · rw [hnew] at hprogram
      cases opens_cases hopens with
      | admission haccepts => cases hprogram
      | cleanup maximumRows =>
        cases hprogram
        exact le_rfl
      | other => cases hprogram
    · exact h.cleaning j other maximumRows sampledAt picked phase hother hprogram

theorem Recorded.ran {responseNow : ℕ} {statement : Statement} (h : Recorded policy key w windows history)
    (hsession : w.sessions.lookup i = some session)
    (hexecute : execute w i responseNow session statement = some session') (hnow : w.now ≤ responseNow) :
    Recorded policy key { w with now := responseNow, sessions := w.sessions.insert i session' } windows history := by
  have hcontinues := (execute_executes hexecute).continues
  have hcases : ∀ {j : ℕ} {other : Session}, (w.sessions.insert i session').lookup j = some other →
      other = session' ∨ w.sessions.lookup j = some other := by
    intro j other hother
    rw [Finmap.lookup_insert_if] at hother
    split at hother
    · cases hother
      exact Or.inl rfl
    · exact Or.inr hother
  refine ⟨h.anchored, h.within, h.last.mono hnow, ?_, ?_, ?_⟩
  · intro j other config checks phase hother hprogram
    rcases hcases hother with rfl | hother
    · obtain ⟨phase', hprogram'⟩ := hcontinues.batch hprogram
      exact h.same i session config checks phase' hsession hprogram'
    · exact h.same j other config checks phase hother hprogram
  · intro j other config checks phase now hother hprogram hkey hdecided
    rcases hcases hother with rfl | hother
    · -- the session that moved: it decides now, or had decided before
      obtain ⟨phase', hprogram'⟩ := hcontinues.batch hprogram
      rcases (execute_admission hexecute hprogram').decidedAt hprogram hdecided with rfl | hdecided'
      · exact ⟨hnow, h.last⟩
      · obtain ⟨hle, hrow⟩ := h.decided i session config checks phase' now hsession hprogram' hkey hdecided'
        exact ⟨hle.trans hnow, hrow⟩
    · obtain ⟨hle, hrow⟩ := h.decided j other config checks phase now hother hprogram hkey hdecided
      exact ⟨hle.trans hnow, hrow⟩
  · intro j other maximumRows sampledAt picked phase hother hprogram
    rcases hcases hother with rfl | hother
    · rw [hprogram] at hcontinues
      generalize hold : session.program = program at hcontinues
      cases hcontinues
      exact (h.cleaning i session _ _ _ _ hsession hold).trans hnow
    · exact (h.cleaning j other maximumRows sampledAt picked phase hother hprogram).trans hnow

/-- A commit that leaves the row of the key as it was. -/
theorem Recorded.unchanged (h : Recorded policy key w windows history)
    (hrow : (session.txn.view w.committed).rows.lookup key = w.committed.rows.lookup key) :
    Recorded policy key { w with committed := session.txn.view w.committed, sessions := w.sessions.erase i } windows
      history where
  anchored := h.anchored
  within := h.within
  last := by
    rw [hrow]
    exact h.last
  same j other config checks phase hother := h.same j other config checks phase (lookup_of_erase hother).2
  decided j other config checks phase now hother hprogram hkey hdecided := by
    rw [hrow]
    exact h.decided j other config checks phase now (lookup_of_erase hother).2 hprogram hkey hdecided
  cleaning j other maximumRows sampledAt picked phase hother :=
    h.cleaning j other maximumRows sampledAt picked phase (lookup_of_erase hother).2

/-- A commit that changes the row of the key, when no other admission of the key has decided. -/
theorem Recorded.changed {windows' : List Window} {history' : List (ℕ × ℕ)} (h : Recorded policy key w windows history)
    (hanchored : Anchored (1000 * policy.window.millis) windows' history')
    (hwithin : ∀ v ∈ windows', cost v.charges ≤ policy.limit.get)
    (hlast : RowWindow (1000 * policy.window.millis) w.now windows' ((session.txn.view w.committed).rows.lookup key))
    (hundecided : ∀ j other config checks phase, j ≠ i → w.sessions.lookup j = some other →
      other.program = .admission config checks phase → (∃ c ∈ checks, c.counterKey = key) → phase.decidedAt = none) :
    Recorded policy key { w with committed := session.txn.view w.committed, sessions := w.sessions.erase i } windows'
      history' where
  anchored := hanchored
  within := hwithin
  last := hlast
  same j other config checks phase hother := h.same j other config checks phase (lookup_of_erase hother).2
  decided j other config checks phase now hother hprogram hkey hdecided := by
    obtain ⟨hne, hother⟩ := lookup_of_erase hother
    rw [hundecided j other config checks phase hne hother hprogram hkey] at hdecided
    cases hdecided
  cleaning j other maximumRows sampledAt picked phase hother :=
    h.cleaning j other maximumRows sampledAt picked phase (lookup_of_erase hother).2

/-- An admission that has decided has locked the rows of its keys, or they are absent. -/
theorem Protocol.decided_settled (hw : Protocol w) (hsession : w.sessions.lookup i = some session)
    {config : PostgresConfig} {checks : List (Check FixedWindowPolicy)} {phase : AdmissionPhase}
    (hprogram : session.program = .admission config checks phase) (hdecided : phase.decidedAt ≠ none) :
    (∀ c ∈ checks, c.counterKey ∈ session.txn.rows ∨ w.committed.rows.lookup c.counterKey = none) ∧
      ∀ c ∈ checks, advisoryLockId c.counterKey ∈ session.advisory := by
  have hkept := hw.admissions i session config checks phase hsession hprogram
  have hheld : (∀ todo, phase ≠ .advisoryLocks todo) → ∀ c ∈ checks, advisoryLockId c.counterKey ∈ session.advisory := by
    intro hpast c hc
    rcases (hw.orderly.good i session hsession).held _ _ _ hprogram c hc with hmem | ⟨todo, htodo, -⟩
    · exact hmem
    · exact absurd htodo (hpast todo)
  cases phase with
  | upsert databaseNow preflightResponse => exact ⟨hkept.1.rows, hheld nofun⟩
  | allowed samples allowances => exact ⟨fun c hc => Or.inl (hkept.rows c hc), hheld nofun⟩
  | advisoryLocks todo => exact absurd rfl hdecided
  | rowLocks todo => exact absurd rfl hdecided
  | capacityLocks missing todo => exact absurd rfl hdecided
  | preflight capacityDenial => exact absurd rfl hdecided
  | denied index denial => exact absurd rfl hdecided
  | failed error => exact absurd rfl hdecided

/-- An admission of the key commits a charge to it. -/
theorem Recorded.charged (h : Recorded policy key w windows history) (hw : Protocol w)
    (hsession : w.sessions.lookup i = some session) {config : PostgresConfig} {checks : List (Check FixedWindowPolicy)}
    {samples : Samples} {allowances : List PendingAllowance} (hprogram : session.program = .admission config checks
      (.allowed samples allowances)) {c : Check FixedWindowPolicy} (hc : c ∈ checks) (hkey : c.counterKey = key) :
    ∃ windows', Recorded policy key
      { w with committed := session.txn.view w.committed, sessions := w.sessions.erase i } windows'
      (history ++ [(samples.databaseNow, c.cost)]) := by
  obtain ⟨-, hnodup⟩ := (hw.orderly.good i session hsession).valid _ _ _ hprogram
  have hconsumed : Consumed w.committed session.txn config checks samples allowances :=
    hw.admissions i session config checks _ hsession hprogram
  obtain ⟨hlimit, hwindow⟩ := h.same i session config checks _ hsession hprogram c hc hkey
  obtain ⟨hle, hlast⟩ := h.decided i session config checks _ _ hsession hprogram ⟨c, hc, hkey⟩ rfl
  have hlength : windowMicros c = 1000 * policy.window.millis := by
    unfold windowMicros
    rw [hwindow]
  have hspent := (firstRefused_none hconsumed.clear.firstRefused_eq).2.2 c hc
  have hanchored := h.anchored
  have hwithin := h.within
  subst hkey
  rw [← hlength] at hlast hanchored
  rw [← hlimit] at hwithin
  obtain ⟨windows', hanchored', hwithin', hlast'⟩ := RowWindow.consumed hlast hanchored hwithin hspent
  rw [hlength] at hanchored' hlast'
  rw [hlimit] at hwithin'
  refine ⟨windows', h.changed hanchored' hwithin' ?_ ?_⟩
  · have hrow := (@lookup_consumedTables _ (WindowStore.tables w.committed) checks samples.databaseNow hnodup).1 c hc
    rw [hconsumed.view_eq]
    change RowWindow _ _ _ ((consumedTables (WindowStore.tables w.committed) samples.databaseNow checks).rows.lookup _)
    rw [hrow]
    exact hlast'.mono hle
  · -- it holds the advisory lock of the key
    intro j other config' checks' phase hne hother hprogram' hkeys
    obtain ⟨c', hc', hsame⟩ := hkeys
    by_contra hdecided
    have hmine := (hw.decided_settled hsession hprogram nofun).2 c hc
    have htheirs := (hw.decided_settled hother hprogram' hdecided).2 c' hc'
    rw [hsame] at htheirs
    have hexclusive := hw.orderly.exclusive i j session other (Ne.symm hne) hsession hother (.advisory _)
      (holds_advisory.2 hmine)
    rw [holds_advisory.2 htheirs] at hexclusive
    cases hexclusive

/-- A cleanup that deletes the row of the key commits when its window has closed. -/
theorem Recorded.deleted (h : Recorded policy key w windows history) (hw : Protocol w)
    (hsession : w.sessions.lookup i = some session) {maximumRows sampledAt : ℕ} {picked deleted : List CounterKey}
    (hprogram : session.program = .cleanup maximumRows sampledAt picked (.deleted deleted)) (hkey : key ∈ deleted) :
    Recorded policy key { w with committed := session.txn.view w.committed, sessions := w.sessions.erase i } windows
      history := by
  obtain ⟨hpicked, hsubset, hremoved⟩ := hw.cleanups i session _ _ _ _ hsession hprogram
  obtain ⟨row, hrow, hexpired⟩ := hpicked.expired key (hsubset key hkey)
  refine h.changed h.anchored h.within ?_ ?_
  · have hlast := h.last
    rw [hrow] at hlast
    rw [hremoved.rows_eq, if_pos hkey]
    exact hlast.expired h.anchored (hexpired.trans (h.cleaning i session _ _ _ _ hsession hprogram))
  · -- it has locked the row
    intro j other config checks phase hne hother hprogram' hkeys
    obtain ⟨c, hc, rfl⟩ := hkeys
    by_contra hdecided
    rcases (hw.decided_settled hother hprogram' hdecided).1 c hc with hlocked | hnone
    · have hexclusive := hw.orderly.exclusive i j session other (Ne.symm hne) hsession hother (.row _)
        (holds_row.2 (hpicked.locked _ (hsubset _ hkey)))
      rw [holds_row.2 hlocked] at hexclusive
      cases hexclusive
    · rw [hrow] at hnone
      cases hnone

/-- An admission charges one check to a key of its own. -/
theorem charges_of_mem {config : PostgresConfig} {samples : Samples} {checks : List (Check FixedWindowPolicy)}
    {admission : Admission} (hnodup : (checks.map Check.counterKey).Nodup) {c : Check FixedWindowPolicy} (hc : c ∈ checks) :
    (Report.admitted config samples checks admission).charges c.counterKey = [(samples.databaseNow, c.cost)] := by
  obtain ⟨before, after, rfl⟩ := List.append_of_mem hc
  rw [List.map_append, List.map_cons, List.nodup_append, List.nodup_cons] at hnodup
  obtain ⟨-, ⟨hafter, -⟩, hbefore⟩ := hnodup
  have hnone : ∀ other ∈ before, ¬(decide (other.counterKey = c.counterKey) = true) := by
    intro other hother hsame
    exact hbefore _ (List.mem_map_of_mem hother) _ List.mem_cons_self (of_decide_eq_true hsame)
  have hnone' : ∀ other ∈ after, ¬(decide (other.counterKey = c.counterKey) = true) := by
    intro other hother hsame
    exact hafter (of_decide_eq_true hsame ▸ List.mem_map_of_mem hother)
  change List.map _ (List.filter _ (before ++ c :: after)) = _
  rw [List.filter_append, List.filter_eq_nil_iff.2 hnone, List.nil_append, List.filter_cons, if_pos (decide_eq_true rfl),
    List.filter_eq_nil_iff.2 hnone']
  rfl

/-- And nothing to any other. -/
theorem charges_of_notMem {config : PostgresConfig} {samples : Samples} {checks : List (Check FixedWindowPolicy)}
    {admission : Admission} (h : ∀ c ∈ checks, c.counterKey ≠ key) :
    (Report.admitted config samples checks admission).charges key = [] := by
  change List.map _ (List.filter _ checks) = _
  rw [List.filter_eq_nil_iff.2 fun c hc hsame => h c hc (of_decide_eq_true hsame)]
  rfl

/-- **A commit adds its charge to the windows of the key.** -/
theorem Recorded.committed (h : Recorded policy key w windows history) (hw : Protocol w)
    (hsession : w.sessions.lookup i = some session) {reported : Report} (hreported : report session = some reported) :
    ∃ windows', Recorded policy key
      { w with committed := session.txn.view w.committed, sessions := w.sessions.erase i } windows'
      (history ++ reported.charges key) := by
  unfold report at hreported
  split at hreported
  · rename_i config checks samples allowances hprogram
    cases hreported
    obtain ⟨-, hnodup⟩ := (hw.orderly.good i session hsession).valid _ _ _ hprogram
    by_cases hkeys : ∃ c ∈ checks, c.counterKey = key
    · obtain ⟨c, hc, rfl⟩ := hkeys
      rw [charges_of_mem hnodup hc]
      exact h.charged hw hsession hprogram hc rfl
    · -- an admission of other keys leaves this row
      have hnot : ∀ c ∈ checks, c.counterKey ≠ key := fun c hc heq => hkeys ⟨c, hc, heq⟩
      rw [charges_of_notMem hnot, List.append_nil]
      have hconsumed : Consumed w.committed session.txn config checks samples allowances :=
        hw.admissions i session config checks _ hsession hprogram
      refine ⟨windows, h.unchanged ?_⟩
      rw [hconsumed.view_eq]
      exact (@lookup_consumedTables _ (WindowStore.tables w.committed) checks samples.databaseNow hnodup).2 key hnot
  · rename_i maximumRows sampledAt picked deleted hprogram
    cases hreported
    unfold Report.charges
    rw [List.append_nil]
    by_cases hkey : key ∈ deleted
    · exact ⟨windows, h.deleted hw hsession hprogram hkey⟩
    · obtain ⟨-, -, hremoved⟩ := hw.cleanups i session _ _ _ _ hsession hprogram
      refine ⟨windows, h.unchanged ?_⟩
      rw [hremoved.rows_eq, if_neg hkey]
  · rename_i inserted hprogram
    exact absurd hprogram (hw.known i session inserted hsession)
  · cases hreported

/-- **A move adds the charge of its commit.** -/
theorem Recorded.acts {move : Move} {occurrence : Occurrence Report} (h : Recorded policy key w windows history)
    (hw : Protocol w) (hsame : SamePolicy policy key move) (hacts : Acts programs w move occurrence w') :
    ∃ windows', Recorded policy key w' windows' (history ++ (reports [occurrence]).flatMap (Report.charges key)) := by
  have hquiet : (reports [(.quiet : Occurrence Report)]).flatMap (Report.charges key) = [] := rfl
  cases hacts with
  | opened hnew hopens =>
    rw [hquiet, List.append_nil]
    exact ⟨windows, h.opened hsame hopens⟩
  | ran hsession hexecute hnow =>
    rw [hquiet, List.append_nil]
    exact ⟨windows, h.ran hsession hexecute hnow⟩
  | @committed i session reported hsession hreported =>
    rw [show reports [Occurrence.committed reported] = [reported] from rfl, List.flatMap_singleton]
    exact h.committed hw hsession hreported
  | aborted hsession =>
    rw [hquiet, List.append_nil]
    refine ⟨windows, h.anchored, h.within, h.last, ?_, ?_, ?_⟩
    · exact fun j other config checks phase hother => h.same j other config checks phase (lookup_of_erase hother).2
    · exact fun j other config checks phase now hother =>
        h.decided j other config checks phase now (lookup_of_erase hother).2
    · exact fun j other maximumRows sampledAt picked phase hother =>
        h.cleaning j other maximumRows sampledAt picked phase (lookup_of_erase hother).2

/-- The commits of a run charge the windows of a key. -/
theorem outputs_recorded : ∀ {moves : List Move} {w : World} {windows : List Window} {history : List (ℕ × ℕ)},
    Recorded policy key w windows history → Protocol w → (∀ move ∈ moves, IsProtocol move) →
    (∀ move ∈ moves, SamePolicy policy key move) →
    ∃ windows', Recorded policy key (Machine.final (moveOn programs) w moves) windows'
      (history ++ (reports (Machine.outputs (moveOn programs) w moves)).flatMap (Report.charges key)) := by
  intro moves
  induction moves with
  | nil =>
    intro w windows history h _ _ _
    exact ⟨windows, by simpa [reports] using h⟩
  | cons move moves ih =>
    intro w windows history h hw hmoves hsame
    rw [List.forall_mem_cons] at hmoves hsame
    rw [Machine.outputs_cons, Machine.final_cons]
    have hsplit : ∀ (occurrence : Occurrence Report) (rest : List (Occurrence Report)),
        reports (occurrence :: rest) = reports [occurrence] ++ reports rest := by
      intro occurrence rest
      unfold reports
      rw [← List.filterMap_append, List.singleton_append]
    rw [hsplit, List.flatMap_append, ← List.append_assoc]
    rcases moveOn_cases move w with hacts | hblocked
    · obtain ⟨windows', h'⟩ := h.acts hw hsame.1 hacts
      exact ih h' (hw.acts hmoves.1 hacts) hmoves.2 hsame.2
    · have hnone : reports [(.blocked : Occurrence Report)] = [] := rfl
      rw [hblocked, hnone, List.flatMap_nil, List.append_nil]
      exact ih h hw hmoves.2 hsame.2

end Windows

/-! ## The result -/

/-- The policies of the admissions of a run. -/
def requested (moves : List Move) : Set FixedWindowPolicy :=
  { policy | ∃ i config request, .start i (.admission config request) ∈ moves ∧ ∃ c ∈ request.checks, c.policy = policy }

/-- **No lost update and no over-admission.** A run of replicas and cleaners leaves the tables that its commits leave
one after another, and its admissions answer what they answer then; no admission fails after its preflight; and the
charges to a key, in the order of the commits, partition into anchored windows within the limit. -/
theorem replicas_serializable {store : WindowStore}
    (hexact : ∀ shard, store.ExactAt id capacityShard hardMaxRowsPerShard shard) {moves : List Move}
    (hmoves : ∀ move ∈ moves, IsProtocol move) :
    Serially Alone (reports (Machine.outputs (moveOn programs) (World.start store) moves)) store
      (interleaved store moves).committed ∧
    (∀ i session config checks error, (interleaved store moves).sessions.lookup i = some session →
      session.program ≠ .admission config checks (.failed error)) ∧
    ∀ known : Set FixedWindowPolicy, Set.InjOn Sha2.sha256 (FixedWindowPolicy.preimage '' known) →
      requested moves ⊆ known → ∀ policy ∈ known, ∀ subject,
      store.rows.lookup ⟨policy.fingerprint, subject⟩ = none →
      ∃ windows, Anchored (1000 * policy.window.millis) windows
          ((reports (Machine.outputs (moveOn programs) (World.start store) moves)).flatMap
            (Report.charges ⟨policy.fingerprint, subject⟩)) ∧
        ∀ v ∈ windows, cost v.charges ≤ policy.limit.get := by
  have hstart : Protocol (World.start store) := protocol_start hexact
  refine ⟨?_, ?_, ?_⟩
  · exact interleaved_serially (fun hmove hacts hw => Protocol.acts hw hmove hacts)
      (fun hw hsession hreported => Protocol.alone hw hsession hreported) hstart hmoves
  · intro i session config checks error hsession hprogram
    exact (interleaved_protocol hexact hmoves).admissions i session config checks _ hsession hprogram
  · intro known hfree hknown policy hpolicy subject hnone
    have hsame : ∀ move ∈ moves, SamePolicy policy ⟨policy.fingerprint, subject⟩ move := by
      rintro move hmove i config request rfl c hc hkey
      have hc' : c.policy ∈ known := hknown ⟨i, config, request, hmove, c, hc, rfl⟩
      have hfingerprint : Sha2.sha256 c.policy.preimage = Sha2.sha256 policy.preimage :=
        congrArg CounterKey.fingerprint hkey
      have hpreimage := hfree (Set.mem_image_of_mem _ hc') (Set.mem_image_of_mem _ hpolicy) hfingerprint
      exact (FixedWindowPolicy.preimage_inj hpreimage).2.2
    obtain ⟨windows, h⟩ := outputs_recorded (recorded_start hnone) hstart hmoves hsame
    rw [List.nil_append] at h
    exact ⟨windows, h.anchored, h.within⟩

/-- The same new login is checked by two replicas at once; a cleaner deletes its row when its window has closed. -/
def sharedMoves : letI := vectorSha2; List Move :=
  letI := vectorSha2
  [[.start 0 (.admission twoRows (.check lateLogin)), .start 1 (.admission twoRows (.check lateLogin)),
      .run 0 0 .advance, .run 1 0 .advance],
    List.replicate 5 (.run 0 2 .advance), [.run 0 3 .advance, .commit 0],
    List.replicate 6 (.run 1 5 .advance), [.run 1 60000005 .advance, .commit 1],
    [.start 2 (.cleanup 8), .run 2 60000007 (.pick lateLogin.counterKey), .run 2 60000007 .lockLedger,
      .run 2 60000007 .lockLedger, .run 2 60000008 (.delete [lateLogin.counterKey]), .commit 2]].flatten

omit [Sha2] in
theorem replicas_serializable_login :
    letI := vectorSha2
    (reports (Machine.outputs (moveOn programs) (World.start (migrate ∅)) sharedMoves)).flatMap
        (Report.charges lateLogin.counterKey) = [(2, 1), (5, 1)] ∧
      (interleaved (migrate ∅) sharedMoves).committed.rows.lookup lateLogin.counterKey = none ∧
      Serially Alone (reports (Machine.outputs (moveOn programs) (World.start (migrate ∅)) sharedMoves)) (migrate ∅)
        (interleaved (migrate ∅) sharedMoves).committed := by
  refine ⟨by decide +kernel, by decide +kernel, ?_⟩
  exact (@replicas_serializable vectorSha2 _ (migrate_exact fun shard => Nat.zero_le _) sharedMoves
    (by decide +kernel)).1

end PgWindows

end Runlimit
