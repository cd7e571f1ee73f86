import Runlimit.Proof.Protocol
import Runlimit.Proof.LedgerExact

/-!
# The lock protocol cannot deadlock

An admission takes its advisory locks in ascending order, then its rows in the order of their keys, then its ledger
shards in ascending order; a cleanup skips the rows that are locked, and then takes its shards in ascending order. So
whoever waits for a lock waits for one above all it holds (`Ordered.above`), and there is no circle.

By the time of the upsert and of the delete nothing is left to wait for (`Ordered.upsert_ready`,
`Ordered.delete_ready`): what is not held yet, the lock of a row that is not there, no one else holds.
-/

namespace Runlimit

open Ledger

namespace PgWindows

variable [Sha2] {w w' : World} {i j : ℕ} {session session' : Session}

/-! ## What a session waits for -/

/-- The locks the next statement of an admission needs. -/
def AdmissionPhase.wanted (tables : WindowTables) (checks : List (Check FixedWindowPolicy)) : AdmissionPhase → List Lock
  | .advisoryLocks (id :: _) => [.advisory id]
  | .rowLocks (key :: _) => if (tables.rows.lookup key).isSome then [.row key] else []
  | .capacityLocks _ (shard :: _) => [.ledger shard]
  | .upsert _ _ => (checks.map fun check => .row check.counterKey) ++ (insertedShards tables checks).map .ledger
  | _ => []

omit [Sha2] in
/-- The locks the next statement of a cleanup needs; it skips the rows that are locked. -/
def CleanupPhase.wanted (picked : List CounterKey) : CleanupPhase → List Lock
  | .ledgerLocks (shard :: _) => [.ledger shard]
  | .ledgerLocks [] => picked.map .row ++ picked.map fun key => .ledger (capacityShard key)
  | _ => []

/-- The locks the next statement of a session needs. -/
def wanted (w : World) (session : Session) : List Lock :=
  match session.program with
  | .admission _ checks phase => phase.wanted (view w session) checks
  | .cleanup _ _ picked phase => phase.wanted picked
  | .other _ => []

/-- The next statement of a session needs a lock that another one holds. -/
def WaitsFor (w : World) (i j : ℕ) : Prop :=
  i ≠ j ∧ ∃ session other lock, w.sessions.lookup i = some session ∧ w.sessions.lookup j = some other ∧
    lock ∈ wanted w session ∧ other.holds lock = true

/-! ## Ascending locks -/

/-- The locks of one class that an admission holds are below those it has yet to take, and it holds none of a later
class. -/
def AdmissionPhase.Ascending (advisory : Finset ℤ) (txn : WindowTxn) : AdmissionPhase → Prop
  | .advisoryLocks todo => todo.Pairwise (· < ·) ∧ (∀ id ∈ advisory, ∀ other ∈ todo, id < other) ∧
      txn.rows = ∅ ∧ txn.shards = ∅
  | .rowLocks todo => todo.Pairwise (· < ·) ∧ (∀ key ∈ txn.rows, ∀ other ∈ todo, key < other) ∧ txn.shards = ∅
  | .capacityLocks _ todo => todo.Pairwise (· < ·) ∧ ∀ shard ∈ txn.shards, ∀ other ∈ todo, shard < other
  | _ => True

def CleanupPhase.Ascending (txn : WindowTxn) : CleanupPhase → Prop
  | .rowLocks => txn.shards = ∅
  | .ledgerLocks todo => todo.Pairwise (· < ·) ∧ ∀ shard ∈ txn.shards, ∀ other ∈ todo, shard < other
  | .deleted _ => True

omit [Sha2] in
/-- Sorted without repetition is strictly ascending. -/
theorem pairwise_lt_of_nodup {α : Type} [LinearOrder α] {l : List α} (hsorted : l.Pairwise (· ≤ ·)) (hnodup : l.Nodup) :
    l.Pairwise (· < ·) :=
  (hsorted.and hnodup).imp fun h => lt_of_le_of_ne h.1 h.2

omit [Sha2] in
/-- `sort_unstable`, `dedup`. -/
theorem pairwise_sorted_dedup {α : Type} [LinearOrder α] (l : List α) :
    ((l.insertionSort (· ≤ ·)).dedup).Pairwise (· < ·) :=
  pairwise_lt_of_nodup ((List.pairwise_insertionSort _ l).sublist (List.dedup_sublist _)) (List.nodup_dedup _)

/-- `ORDER BY` lists each key of the batch once. -/
theorem pairwise_existingRows {tables : WindowTables} {checks : List (Check FixedWindowPolicy)}
    (hnodup : (checks.map Check.counterKey).Nodup) : (existingRows tables checks).Pairwise (· < ·) := by
  unfold existingRows
  refine pairwise_lt_of_nodup ((List.pairwise_insertionSort _ _).filter _) (List.Nodup.filter _ ?_)
  exact (List.perm_insertionSort _ _).nodup_iff.2 hnodup

omit [Sha2] in
/-- A lock taken next is above those taken before, and below those left. -/
theorem ascending_next {α : Type} [LinearOrder α] {held : Finset α} {a : α} {todo : List α}
    (hsorted : (a :: todo).Pairwise (· < ·)) (hheld : ∀ b ∈ held, ∀ c ∈ a :: todo, b < c) :
    todo.Pairwise (· < ·) ∧ ∀ b, b ∈ held ∨ b = a → ∀ c ∈ todo, b < c := by
  rw [List.pairwise_cons] at hsorted
  refine ⟨hsorted.2, fun b hb c hc => ?_⟩
  rcases hb with hb | rfl
  · exact hheld b hb c (List.mem_cons_of_mem _ hc)
  · exact hsorted.1 c hc

/-- The statements of an admission take its locks in ascending order. -/
theorem Advances.ascending {responseNow : ℕ} {config : PostgresConfig} {checks : List (Check FixedWindowPolicy)}
    {phase : AdmissionPhase} (h : Advances w i responseNow session config checks phase session')
    (hnodup : (checks.map Check.counterKey).Nodup) (hascending : phase.Ascending session.advisory session.txn) :
    ∃ phase', session'.program = .admission config checks phase' ∧ phase'.Ascending session'.advisory session'.txn := by
  cases h with
  | @lockId id todo hfree =>
    -- the first class: no row and no shard is locked while there are ids left
    obtain ⟨hsorted, hheld, hrows, hshards⟩ := hascending
    obtain ⟨hsorted', hheld'⟩ := ascending_next hsorted hheld
    exact ⟨_, rfl, hsorted', fun other hother => hheld' other (Finset.mem_insert.1 hother).symm, hrows, hshards⟩
  | findRows =>
    -- the second class begins with no row locked
    obtain ⟨-, -, hrows, hshards⟩ := hascending
    refine ⟨_, rfl, pairwise_existingRows hnodup, fun key hkey => ?_, hshards⟩
    rw [hrows] at hkey
    cases hkey
  | skipRow hgone =>
    -- a row that is gone needs no lock
    obtain ⟨hsorted, hheld, hshards⟩ := hascending
    exact ⟨_, rfl, hsorted.of_cons, fun key hkey other hother => hheld key hkey other (List.mem_cons_of_mem _ hother),
      hshards⟩
  | @lockRow key todo hpresent hfree =>
    obtain ⟨hsorted, hheld, hshards⟩ := hascending
    obtain ⟨hsorted', hheld'⟩ := ascending_next hsorted hheld
    refine ⟨_, rfl, hsorted', fun other hother => ?_, ?_⟩
    · exact hheld' other ((Finset.mem_union.1 hother).imp_right Finset.mem_singleton.1)
    · change session.txn.shards ∪ ∅ = ∅
      rw [hshards, Finset.union_empty]
  | findMissing =>
    -- the third class begins with no shard locked
    obtain ⟨-, -, hshards⟩ := hascending
    refine ⟨_, rfl, pairwise_sorted_dedup _, fun shard hshard => ?_⟩
    rw [hshards] at hshard
    cases hshard
  | @lockShard missing shard todo hfree =>
    obtain ⟨hsorted, hheld⟩ := hascending
    obtain ⟨hsorted', hheld'⟩ := ascending_next hsorted hheld
    refine ⟨_, rfl, hsorted', fun other hother => hheld' other ?_⟩
    exact (Finset.mem_union.1 hother).imp_right Finset.mem_singleton.1
  | readCapacity =>
    refine ⟨_, rfl, ?_⟩
    generalize firstCapacityDenial _ _ _ _ = result
    cases result with
    | error error => exact trivial
    | ok denial => exact trivial
  | @preflight capacityDenial =>
    refine ⟨_, rfl, ?_⟩
    cases preflightBatch (view w session) w.now checks with
    | error error => exact trivial
    | ok quotaDenial =>
      change AdmissionPhase.Ascending _ _ (afterPreflight _ _ capacityDenial quotaDenial)
      unfold afterPreflight
      split
      · exact trivial
      · exact trivial
  | upserted hrows hshards hupsert => exact ⟨_, rfl, trivial⟩
  | upsertFailed hupsert => exact ⟨_, rfl, trivial⟩

/-- The statement of a cleanup takes its shards in ascending order. -/
theorem Cleans.ascending {maximumRows sampledAt : ℕ} {picked : List CounterKey} {phase : CleanupPhase}
    (h : Cleans w i session maximumRows sampledAt picked phase session') (hascending : phase.Ascending session.txn) :
    ∃ picked' phase', session'.program = .cleanup maximumRows sampledAt picked' phase' ∧
      phase'.Ascending session'.txn := by
  cases h with
  | pick hrow hroom hexpired hnew hfree =>
    -- rows are locked by `SKIP LOCKED`, in no order
    refine ⟨_, _, rfl, ?_⟩
    change session.txn.shards ∪ ∅ = ∅
    rw [show session.txn.shards = ∅ from hascending, Finset.union_empty]
  | findShards =>
    refine ⟨_, _, rfl, pairwise_sorted_dedup _, fun shard hshard => ?_⟩
    rw [show session.txn.shards = ∅ from hascending] at hshard
    cases hshard
  | @lockShard shard todo hfree =>
    obtain ⟨hsorted, hheld⟩ := hascending
    obtain ⟨hsorted', hheld'⟩ := ascending_next hsorted hheld
    refine ⟨_, _, rfl, hsorted', fun other hother => hheld' other ?_⟩
    exact (Finset.mem_union.1 hother).imp_right Finset.mem_singleton.1
  | @delete keys _ hsubset hdeleting =>
    obtain ⟨tables, hdeletes⟩ := deleting_deletes hdeleting
    rw [hdeletes.session_eq]
    exact ⟨_, _, rfl, trivial⟩

/-- What every run of admissions and cleanups keeps, with the order of its locks. -/
structure Ordered (w : World) : Prop where
  protocol : Protocol w
  admissions : ∀ i session config checks phase, w.sessions.lookup i = some session →
    session.program = .admission config checks phase → phase.Ascending session.advisory session.txn
  cleanups : ∀ i session maximumRows sampledAt picked phase, w.sessions.lookup i = some session →
    session.program = .cleanup maximumRows sampledAt picked phase → phase.Ascending session.txn

/-- A new session holds no lock. -/
theorem opens_ascending {what : Start} {program : Program} (h : opens w what = some program) :
    (∀ config checks phase, program = .admission config checks phase →
      phase.Ascending ∅ (Txn.new w.committed : WindowTxn)) ∧
    ∀ maximumRows sampledAt picked phase, program = .cleanup maximumRows sampledAt picked phase →
      phase.Ascending (Txn.new w.committed : WindowTxn) := by
  cases opens_cases h with
  | admission haccepts =>
    refine ⟨?_, nofun⟩
    intro config' checks phase hprogram
    cases hprogram
    exact ⟨pairwise_sorted_dedup _, nofun, rfl, rfl⟩
  | cleanup maximumRows =>
    refine ⟨nofun, ?_⟩
    intro maximumRows' sampledAt picked phase hprogram
    cases hprogram
    rfl
  | other => exact ⟨nofun, nofun⟩

/-- **A move of the protocol keeps the order.** -/
theorem Ordered.acts {move : Move} {occurrence : Occurrence Report} (hw : Ordered w) (hmove : IsProtocol move)
    (h : Acts programs w move occurrence w') : Ordered w' := by
  refine ⟨hw.protocol.acts hmove h, ?_, ?_⟩
  · intro i session config checks phase hsession hprogram
    cases h with
    | @opened j what program hnew hopens =>
      rw [Finmap.lookup_insert_if] at hsession
      split at hsession
      · cases hsession
        exact (opens_ascending hopens).1 config checks phase hprogram
      · exact hw.admissions i session config checks phase hsession hprogram
    | @ran j responseNow statement other other' hother hexecute hnow =>
      rw [Finmap.lookup_insert_if] at hsession
      split at hsession
      · cases hsession
        obtain ⟨phase', hprogram'⟩ := (execute_executes hexecute).continues.batch hprogram
        obtain ⟨-, hnodup⟩ := (hw.protocol.orderly.good j other hother).valid _ _ _ hprogram'
        obtain ⟨phase'', hsame, hascending⟩ := (execute_admission hexecute hprogram').ascending hnodup
          (hw.admissions j other config checks phase' hother hprogram')
        rw [hprogram] at hsame
        cases hsame
        exact hascending
      · exact hw.admissions i session config checks phase hsession hprogram
    | committed hother hreported =>
      -- the sessions that are left hold the locks they held
      exact hw.admissions i session config checks phase (lookup_of_erase hsession).2 hprogram
    | aborted hother => exact hw.admissions i session config checks phase (lookup_of_erase hsession).2 hprogram
  · intro i session maximumRows sampledAt picked phase hsession hprogram
    cases h with
    | @opened j what program hnew hopens =>
      rw [Finmap.lookup_insert_if] at hsession
      split at hsession
      · cases hsession
        exact (opens_ascending hopens).2 maximumRows sampledAt picked phase hprogram
      · exact hw.cleanups i session maximumRows sampledAt picked phase hsession hprogram
    | @ran j responseNow statement other other' hother hexecute hnow =>
      rw [Finmap.lookup_insert_if] at hsession
      split at hsession
      · cases hsession
        cases execute_executes hexecute with
        | admission hprogram' hadvances =>
          have hcontinues := (Executes.admission hprogram' hadvances).continues
          rw [hprogram, hprogram'] at hcontinues
          cases hcontinues
        | cleanup hprogram' hcleans =>
          obtain ⟨picked', phase', hsame, hascending⟩ :=
            hcleans.ascending (hw.cleanups j other _ _ _ _ hother hprogram')
          rw [hprogram] at hsame
          cases hsame
          exact hascending
        | other hprogram' hmodifies => exact absurd hprogram' (hw.protocol.known j other _ hother)
      · exact hw.cleanups i session maximumRows sampledAt picked phase hsession hprogram
    | committed hother hreported =>
      exact hw.cleanups i session maximumRows sampledAt picked phase (lookup_of_erase hsession).2 hprogram
    | aborted hother =>
      exact hw.cleanups i session maximumRows sampledAt picked phase (lookup_of_erase hsession).2 hprogram

/-- The order holds in every state that admissions and cleanups reach. -/
theorem interleaved_ordered {store : WindowStore}
    (h : ∀ shard, store.ExactAt id capacityShard hardMaxRowsPerShard shard) {moves : List Move}
    (hmoves : ∀ move ∈ moves, IsProtocol move) : Ordered (interleaved store moves) := by
  refine interleaved_inv (fun hmove hacts hw => hw.acts hmove hacts) ⟨protocol_start h, ?_, ?_⟩ hmoves
  · intro i session config checks phase hsession
    rw [show (World.start store : World).sessions = ∅ from rfl, Finmap.lookup_empty] at hsession
    cases hsession
  · intro i session maximumRows sampledAt picked phase hsession
    rw [show (World.start store : World).sessions = ∅ from rfl, Finmap.lookup_empty] at hsession
    cases hsession

/-! ## Nothing to wait for -/

/-- A lock that is held or free is not held by another session. -/
theorem not_held_by_other (hw : Orderly w) {other : Session} {lock : Lock} (hne : i ≠ j)
    (hsession : w.sessions.lookup i = some session) (hother : w.sessions.lookup j = some other)
    (hready : session.holds lock = true ∨ w.free i lock = true) : other.holds lock = false := by
  rcases hready with hheld | hfree
  · exact hw.exclusive i j session other hne hsession hother lock hheld
  · exact free_iff.1 hfree j other (Ne.symm hne) hother

/-- The lock of a row that is not there belongs to an admission of its key. -/
theorem Ordered.row_free (hw : Ordered w) (hsession : w.sessions.lookup i = some session) {key : CounterKey}
    (hadvisory : advisoryLockId key ∈ session.advisory) (hnone : w.committed.rows.lookup key = none) :
    w.free i (.row key) = true := by
  rw [free_iff]
  intro j other hne hother
  by_contra hholds
  have hlocked : key ∈ other.txn.rows := holds_row.1 (by simpa using hholds)
  rcases hw.protocol.rows j other key hother hlocked with hpresent | hnames
  · exact absurd hpresent (Finmap.notMem_keys_iff.2 hnone)
  · cases hprogram : other.program with
    | admission config checks phase =>
      rw [hprogram] at hnames
      obtain ⟨c, hc, rfl⟩ := hnames
      rcases (hw.protocol.orderly.good j other hother).held _ _ _ hprogram c hc with hmem | ⟨todo, rfl, -⟩
      · have hexclusive := hw.protocol.orderly.exclusive i j session other (Ne.symm hne) hsession hother (.advisory _)
          (holds_advisory.2 hadvisory)
        rw [holds_advisory.2 hmem] at hexclusive
        cases hexclusive
      · -- it has not locked any row yet
        obtain ⟨-, -, hrows, -⟩ := hw.admissions j other config checks _ hother hprogram
        rw [hrows] at hlocked
        cases hlocked
    | cleanup maximumRows sampledAt picked phase =>
      rw [hprogram] at hnames
      exact hnames
    | other inserted => exact hw.protocol.known j other inserted hother hprogram

/-- **The locks of the upsert and of its trigger** are held by then, or free. -/
theorem Ordered.upsert_ready (hw : Ordered w) (hsession : w.sessions.lookup i = some session) {config : PostgresConfig}
    {checks : List (Check FixedWindowPolicy)} {databaseNow preflightResponse : ℕ}
    (hprogram : session.program = .admission config checks (.upsert databaseNow preflightResponse)) :
    ∀ lock ∈ wanted w session, session.holds lock = true ∨ w.free i lock = true := by
  obtain ⟨hsettled, hcovered, -⟩ := hw.protocol.admissions i session config checks _ hsession hprogram
  have hview := view_of_clean hsettled.clean
  intro lock hlock
  unfold wanted at hlock
  rw [hprogram, hview] at hlock
  rcases List.mem_append.1 hlock with hrow | hshard
  · obtain ⟨c, hc, rfl⟩ := List.mem_map.1 hrow
    -- a row that is there was locked before; of one that is not, the admission holds the advisory lock
    rcases hsettled.rows c hc with hlocked | hnone
    · exact Or.inl (holds_row.2 hlocked)
    · right
      refine hw.row_free hsession ?_ hnone
      rcases (hw.protocol.orderly.good i session hsession).held _ _ _ hprogram c hc with hmem | ⟨todo, htodo, -⟩
      · exact hmem
      · cases htodo
  · obtain ⟨shard, hmem, rfl⟩ := List.mem_map.1 hshard
    exact Or.inl (holds_ledger.2 (hcovered shard hmem))

/-- **The locks of the delete and of its trigger** are held by then. -/
theorem Ordered.delete_ready (hw : Ordered w) (hsession : w.sessions.lookup i = some session)
    {maximumRows sampledAt : ℕ} {picked : List CounterKey}
    (hprogram : session.program = .cleanup maximumRows sampledAt picked (.ledgerLocks [])) :
    ∀ lock ∈ wanted w session, session.holds lock = true := by
  obtain ⟨-, hpicked, hshards⟩ := hw.protocol.cleanups i session _ _ _ _ hsession hprogram
  intro lock hlock
  unfold wanted at hlock
  rw [hprogram] at hlock
  rcases List.mem_append.1 hlock with hrow | hshard
  · obtain ⟨key, hkey, rfl⟩ := List.mem_map.1 hrow
    exact holds_row.2 (hpicked.locked key hkey)
  · obtain ⟨key, hkey, rfl⟩ := List.mem_map.1 hshard
    rcases hshards key hkey with hlocked | htodo
    · exact holds_ledger.2 hlocked
    · cases htodo

/-! ## No circle -/

/-- What a shard still to be locked stands above. -/
theorem rank_ledger_lt {shard : CapacityShard} (hshards : ∀ held ∈ session.txn.shards, held < shard)
    {mine : Lock} (hmine : session.holds mine = true) : mine.rank < (Lock.ledger shard : Lock).rank := by
  cases mine with
  | advisory id => exact Sum.Lex.inl_lt_inr _ _
  | row key => exact Sum.Lex.inr_lt_inr_iff.2 (Sum.Lex.inl_lt_inr _ _)
  | ledger held => exact Sum.Lex.inr_lt_inr_iff.2 (Sum.Lex.inr_lt_inr_iff.2 (hshards held (holds_ledger.1 hmine)))

/-- A lock that an admission takes is above all it holds. -/
theorem AdmissionPhase.Ascending.above {phase : AdmissionPhase} (h : phase.Ascending session.advisory session.txn)
    {tables : WindowTables} {checks : List (Check FixedWindowPolicy)} {lock : Lock} (hlock : lock ∈ phase.wanted tables checks)
    (hupsert : ∀ databaseNow preflightResponse, phase ≠ .upsert databaseNow preflightResponse) {mine : Lock}
    (hmine : session.holds mine = true) : mine.rank < lock.rank := by
  cases phase with
  | advisoryLocks todo =>
    cases todo with
    | nil => cases hlock
    | cons id todo =>
      obtain ⟨-, hids, hrows, hshards⟩ := h
      rw [List.mem_singleton.1 hlock]
      cases mine with
      | advisory held => exact Sum.Lex.inl_lt_inl_iff.2 (hids held (holds_advisory.1 hmine) id List.mem_cons_self)
      | row key =>
        rw [holds_row, hrows] at hmine
        cases hmine
      | ledger shard =>
        rw [holds_ledger, hshards] at hmine
        cases hmine
  | rowLocks todo =>
    -- row locks stand above advisory locks, and below the locks of the ledger
    cases todo with
    | nil => cases hlock
    | cons key todo =>
      obtain ⟨-, hkeys, hshards⟩ := h
      change lock ∈ (if (tables.rows.lookup key).isSome then [Lock.row key] else []) at hlock
      split at hlock
      · rw [List.mem_singleton.1 hlock]
        cases mine with
        | advisory held => exact Sum.Lex.inl_lt_inr _ _
        | row held =>
          have hlt : held < key := hkeys held (holds_row.1 hmine) key List.mem_cons_self
          exact Sum.Lex.inr_lt_inr_iff.2 (Sum.Lex.inl_lt_inl_iff.2 hlt)
        | ledger shard =>
          rw [holds_ledger, hshards] at hmine
          cases hmine
      · cases hlock
  | capacityLocks missing todo =>
    cases todo with
    | nil => cases hlock
    | cons shard todo =>
      rw [List.mem_singleton.1 hlock]
      exact rank_ledger_lt (fun held hheld => h.2 held hheld shard List.mem_cons_self) hmine
  | upsert databaseNow preflightResponse => exact absurd rfl (hupsert databaseNow preflightResponse)
  | preflight capacityDenial => cases hlock
  | allowed samples allowances => cases hlock
  | denied index denial => cases hlock
  | failed error => cases hlock

/-- **Whoever waits waits for a lock above all it holds.** -/
theorem Ordered.above (hw : Ordered w) {other : Session} {lock : Lock} (hne : i ≠ j)
    (hsession : w.sessions.lookup i = some session) (hother : w.sessions.lookup j = some other)
    (hlock : lock ∈ wanted w session) (hheld : other.holds lock = true) {mine : Lock}
    (hmine : session.holds mine = true) : mine.rank < lock.rank := by
  have hready : ¬(session.holds lock = true ∨ w.free i lock = true) := by
    intro hready
    rw [not_held_by_other hw.protocol.orderly hne hsession hother hready] at hheld
    cases hheld
  have hwanted := hlock
  unfold wanted at hlock
  cases hprogram : session.program with
  | admission config checks phase =>
    rw [hprogram] at hlock
    refine (hw.admissions i session config checks phase hsession hprogram).above hlock ?_ hmine
    rintro databaseNow preflightResponse rfl
    -- the upsert never waits
    exact hready (hw.upsert_ready hsession hprogram lock hwanted)
  | cleanup maximumRows sampledAt picked phase =>
    rw [hprogram] at hlock
    have hascending := hw.cleanups i session maximumRows sampledAt picked phase hsession hprogram
    cases phase with
    | rowLocks => cases hlock
    | ledgerLocks todo =>
      cases todo with
      -- nor does the delete
      | nil => exact absurd (Or.inl (hw.delete_ready hsession hprogram lock hwanted)) hready
      | cons shard todo =>
        rw [List.mem_singleton.1 hlock]
        exact rank_ledger_lt (fun held hheld => hascending.2 held hheld shard List.mem_cons_self) hmine
    | deleted rows => cases hlock
  | other inserted => exact absurd hprogram (hw.protocol.known i session inserted hsession)

/-- **No session waits for itself**, through however many others. -/
theorem Ordered.no_circle (hw : Ordered w) (i : ℕ) : ¬Relation.TransGen (WaitsFor w) i i := by
  -- the lock an edge is about, wanted by one session and held by another
  have hcircle := @not_transGen_of_ascending ℕ Lock _ _
    (fun i lock => ∃ session, w.sessions.lookup i = some session ∧ lock ∈ wanted w session ∧
      ∃ j other, i ≠ j ∧ w.sessions.lookup j = some other ∧ other.holds lock = true)
    (fun j lock => ∃ other, w.sessions.lookup j = some other ∧ other.holds lock = true) Lock.rank ?_ i
  · intro hpath
    refine hcircle (Relation.TransGen.mono ?_ _ _ hpath)
    rintro i j ⟨hne, session, other, lock, hsession, hother, hlock, hheld⟩
    exact ⟨lock, ⟨session, hsession, hlock, j, other, hne, hother, hheld⟩, other, hother, hheld⟩
  · rintro i lock mine ⟨session, hsession, hlock, j, other, hne, hother, hheld⟩ ⟨session', hsession', hmine⟩
    rw [hsession] at hsession'
    cases hsession'
    exact hw.above hne hsession hother hlock hheld hmine

/-- **The lock protocol cannot deadlock.** At no point of a run of admissions and cleanups do sessions wait for each
other in a circle, and the locks of the upsert, of the delete and of their triggers are held by then or free. -/
theorem protocol_deadlock_free {store : WindowStore}
    (hexact : ∀ shard, store.ExactAt id capacityShard hardMaxRowsPerShard shard) {moves : List Move}
    (hmoves : ∀ move ∈ moves, IsProtocol move) :
    (∀ i, ¬Relation.TransGen (WaitsFor (interleaved store moves)) i i) ∧
    (∀ i session config checks databaseNow preflightResponse,
      (interleaved store moves).sessions.lookup i = some session →
      session.program = .admission config checks (.upsert databaseNow preflightResponse) →
      ∀ lock ∈ wanted (interleaved store moves) session,
        session.holds lock = true ∨ (interleaved store moves).free i lock = true) ∧
    ∀ i session maximumRows sampledAt picked, (interleaved store moves).sessions.lookup i = some session →
      session.program = .cleanup maximumRows sampledAt picked (.ledgerLocks []) →
      ∀ lock ∈ wanted (interleaved store moves) session, session.holds lock = true := by
  have hw : Ordered (interleaved store moves) := interleaved_ordered hexact hmoves
  refine ⟨hw.no_circle, ?_, ?_⟩
  · intro i session config checks databaseNow preflightResponse hsession hprogram
    exact hw.upsert_ready hsession hprogram
  · intro i session maximumRows sampledAt picked hsession hprogram
    exact hw.delete_ready hsession hprogram

/-- Two replicas check the same new login; the second has to wait. -/
def contendingMoves : letI := vectorSha2; List Move :=
  letI := vectorSha2
  [.start 0 (.admission twoRows (.check lateLogin)), .start 1 (.admission twoRows (.check lateLogin)),
    .run 0 0 .advance]

omit [Sha2] in
theorem protocol_deadlock_free_login :
    letI := vectorSha2
    ((interleaved (migrate oneLogin) contendingMoves).act programs (.run 1 0 .advance)).isNone = true ∧
      ∀ i, ¬Relation.TransGen (WaitsFor (interleaved (migrate oneLogin) contendingMoves)) i i :=
  ⟨by decide +kernel,
    (@protocol_deadlock_free vectorSha2 _ (migrate_exact oneLogin_rows) contendingMoves (by decide +kernel)).1⟩

end PgWindows

end Runlimit
