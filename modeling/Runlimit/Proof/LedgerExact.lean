import Runlimit.Proof.LedgerRoom
import Runlimit.Proof.GcraSessionSteps

/-!
# The capacity ledgers are exact

Replicas with different maxima, cleaners and other writers run side by side, and any of them may be rolled back. In
every committed state the ledger of a shard counts its rows, which are at most `HARD_MAX_ROWS_PER_SHARD`: the
triggers see to that, whoever writes.

The maximum of a replica is a matter of the protocol. A GCRA admission holds the ledgers of its shards from before its
first read, and never leaves a shard above both its maximum and what was there. A fixed-window admission does so
unless another writer inserts a row of one of its keys while it runs, and that row is gone again before it commits: it
counts only the keys it finds absent when it locks the ledgers (`overfilled`).
-/

namespace Runlimit

open Ledger

namespace PgWindows

section Admissions

variable [Sha2] {store : WindowStore} {before during : List Move} {i : ℕ} {config : PostgresConfig}
  {request : Request FixedWindowPolicy}

omit [Sha2] in
/-- The migration counts what it finds. -/
theorem migrate_exact {rows : Table CounterKey WindowRow}
    (h : ∀ shard, (rows.keys.filter fun key => capacityShard key = shard).card ≤ hardMaxRowsPerShard)
    (shard : CapacityShard) : (migrate rows).ExactAt id capacityShard hardMaxRowsPerShard shard :=
  ⟨rfl, h shard⟩

/-- The database when an admission is about to commit. -/
def beforeCommit (store : WindowStore) (before during : List Move) (i : ℕ) (config : PostgresConfig)
    (request : Request FixedWindowPolicy) : World :=
  interleaved store (before ++ .start i (.admission config request) :: during)

/-- An admission that runs from its start to its commit, next to other sessions. No row of its keys that another writer
brings meanwhile is gone again before the commit. -/
structure Uncrossed (store : WindowStore) (before during : List Move) (i : ℕ) (config : PostgresConfig)
    (request : Request FixedWindowPolicy) : Prop where
  started : ((interleaved store before).act programs (.start i (.admission config request))).isSome = true
  running : ∀ move ∈ during, move ≠ .commit i ∧ move ≠ .abort i
  stays : ∀ c ∈ request.checks, ∀ part, part <+: during →
    c.counterKey ∈ Brought (interleaved store (before ++ [.start i (.admission config request)])) part →
    (beforeCommit store before part i config request).committed.rows.lookup c.counterKey ≠ none
  committed : ((beforeCommit store before during i config request).act programs (.commit i)).isSome = true

/-- A run up to the commit, from the start of the admission. -/
theorem beforeCommit_eq (store : WindowStore) (before during : List Move) (i : ℕ) (config : PostgresConfig)
    (request : Request FixedWindowPolicy) :
    beforeCommit store before during i config request =
      Machine.final (moveOn programs) (interleaved store (before ++ [.start i (.admission config request)])) during := by
  unfold beforeCommit
  rw [List.append_cons]
  exact Machine.final_append _ _ _

/-- Such an admission has room, up to its commit. -/
theorem Uncrossed.rooms (h : Uncrossed store before during i config request)
    (hexact : ∀ shard, store.ExactAt id capacityShard hardMaxRowsPerShard shard) :
    ∃ brought, Rooms brought (beforeCommit store before during i config request) i config request.checks := by
  have hstarted : Rooms ∅ (interleaved store (before ++ [.start i (.admission config request)])) i config
      request.checks := by
    have hstep : interleaved store (before ++ [.start i (.admission config request)]) =
        (moveOn programs (.start i (.admission config request)) (interleaved store before)).2 :=
      Machine.final_append _ _ _
    rw [hstep]
    obtain ⟨⟨occurrence, w'⟩, hact⟩ := Option.isSome_iff_exists.1 h.started
    rw [moveOn_of_act hact]
    exact rooms_opened (act_acts hact)
  -- the condition speaks of the run from the start, the invariant of the run from the admission on
  have hstays : ∀ c ∈ request.checks, ∀ part, part <+: during →
      c.counterKey ∈ Brought (interleaved store (before ++ [.start i (.admission config request)])) part →
      (Machine.final (moveOn programs) (interleaved store (before ++ [.start i (.admission config request)]))
        part).committed.rows.lookup c.counterKey ≠ none := by
    intro c hc part hpart hmem
    rw [← beforeCommit_eq]
    exact h.stays c hc part hpart hmem
  have hrun := final_rooms (programs_lawful.interleaved hexact _) hstarted h.running hstays
  rw [beforeCommit_eq]
  exact ⟨_, hrun.2⟩

/-- And so its commit overfills no shard that it did not find fuller. -/
theorem Uncrossed.bounded (h : Uncrossed store before during i config request)
    (hexact : ∀ shard, store.ExactAt id capacityShard hardMaxRowsPerShard shard) (shard : CapacityShard) :
    (moveOn programs (.commit i) (beforeCommit store before during i config request)).2.committed.ledger shard ≤
      max config.maximumRowsPerShard ((beforeCommit store before during i config request).committed.ledger shard) := by
  obtain ⟨brought, session, phase, hsession, hprogram, hroomy⟩ := h.rooms hexact
  obtain ⟨⟨occurrence, w'⟩, hact⟩ := Option.isSome_iff_exists.1 h.committed
  rw [moveOn_of_act hact]
  cases act_acts hact with
  | @committed _ session' report' hsession' hreported =>
    rw [hsession] at hsession'
    cases hsession'
    -- only an allowed admission has something to commit
    change report session = some _ at hreported
    unfold report at hreported
    rw [hprogram] at hreported
    cases phase with
    | allowed samples allowances => exact hroomy shard
    | advisoryLocks todo => cases hreported
    | rowLocks todo => cases hreported
    | capacityLocks missing todo => cases hreported
    | preflight capacityDenial => cases hreported
    | upsert databaseNow preflightResponse => cases hreported
    | denied index denial => cases hreported
    | failed error => cases hreported

end Admissions

end PgWindows

namespace PgGcra

variable [Sha2]

/-- What an admission commits overfills no shard. -/
theorem admission_bounded {moves : List Move} {i : ℕ} {config : PostgresConfig} {request : Request GcraPolicy}
    {response : PgResponse} {w' : World}
    (h : moveOn programs (.commit i) (interleaved moves) = (.committed (.admitted config request response), w'))
    (shard : CapacityShard) :
    (w'.committed.ledger shard).rowCount ≤
      max config.maximumRowsPerShard ((interleaved moves).committed.ledger shard).rowCount := by
  have hw := interleaved_orderly moves
  rcases moveOn_cases (.commit i) (interleaved moves) with hacts | hblocked
  · rw [h] at hacts
    cases hacts with
    | @committed _ session _ hsession hreported =>
      change report session = some _ at hreported
      unfold report at hreported
      split at hreported
      · -- of what a session reports only an admission is admitted
        rename_i config' request' response' hprogram
        cases hreported
        exact hw.kept i session config request (.allowed response) hsession hprogram shard
      · cases hreported
      · cases hreported
      · cases hreported
  · rw [hblocked] at h
    cases h

end PgGcra

/-- **The capacity ledgers are exact and bounded**, along every interleaving of both limiters. -/
theorem capacity_ledgers_exact [Sha2] :
    (∀ rows : Table CounterKey WindowRow,
      (∀ shard, (rows.keys.filter fun key => capacityShard key = shard).card ≤ hardMaxRowsPerShard) →
      (∀ moves shard, (PgWindows.interleaved (PgWindows.migrate rows) moves).committed.ExactAt id capacityShard
        hardMaxRowsPerShard shard) ∧
      ∀ before during i config request,
        PgWindows.Uncrossed (PgWindows.migrate rows) before during i config request →
        ∀ shard,
          (moveOn PgWindows.programs (.commit i)
            (PgWindows.beforeCommit (PgWindows.migrate rows) before during i config request)).2.committed.ledger shard ≤
          max config.maximumRowsPerShard ((PgWindows.beforeCommit (PgWindows.migrate rows) before during i config
            request).committed.ledger shard)) ∧
    (∀ moves shard, (PgGcra.interleaved moves).committed.ExactAt LedgerRow.rowCount capacityShard
      hardMaxRowsPerShard shard) ∧
    ∀ moves i config request response w',
      moveOn PgGcra.programs (.commit i) (PgGcra.interleaved moves) =
        (.committed (.admitted config request response), w') →
      ∀ shard, (w'.committed.ledger shard).rowCount ≤
        max config.maximumRowsPerShard ((PgGcra.interleaved moves).committed.ledger shard).rowCount := by
  refine ⟨fun rows hrows => ⟨?_, ?_⟩, ?_, ?_⟩
  · intro moves shard
    exact (PgWindows.programs_lawful.interleaved (PgWindows.migrate_exact hrows) moves).ledger.exact shard
  · intro before during i config request huncrossed shard
    exact huncrossed.bounded (PgWindows.migrate_exact hrows) shard
  · intro moves shard
    exact (PgGcra.interleaved_orderly moves).orderly.ledger.exact shard
  · intro moves i config request response w' hcommit shard
    exact PgGcra.admission_bounded hcommit shard

/-! ## Another writer in between -/

namespace PgWindows

/-- A subject in the shard of `Digest.replicate 1`. -/
def crowdedSubject : Digest := ⟨1 :: List.replicate 31 2, rfl⟩

def lateLogin : letI := vectorSha2; Check FixedWindowPolicy :=
  letI := vectorSha2
  Check.new loginPolicy crowdedSubject

def openWindow : WindowRow := ⟨0, 60000000, 1⟩

/-- One login, stored when the migration runs. -/
def oneLogin : letI := vectorSha2; Table CounterKey WindowRow :=
  letI := vectorSha2
  (∅ : Table CounterKey WindowRow).insert (Check.new loginPolicy (Digest.replicate 1)).counterKey openWindow

/-- A replica that keeps one row to a shard. -/
def oneRow : PostgresConfig := ⟨1, 32, Nat.one_pos, by decide, MemoryStoreConfig.defaultBatch_pos⟩

/-- A second login is checked. Another writer inserts its row after the admission has looked for rows to lock, and
deletes it again after the admission has found no absent key to count. -/
def crossedMoves : letI := vectorSha2; List Move :=
  letI := vectorSha2
  [.start 0 (.admission oneRow (.check lateLogin)), .run 0 0 .advance, .run 0 0 .advance,
    .start 1 .other, .run 1 0 (.insert [(lateLogin.counterKey, openWindow)]), .commit 1,
    .run 0 0 .advance, .run 0 0 .advance,
    .start 2 .other, .run 2 0 (.delete [lateLogin.counterKey]), .commit 2,
    .run 0 0 .advance, .run 0 0 .advance]

/-- A replica that keeps two rows to a shard. -/
def twoRows : PostgresConfig := ⟨2, 32, Nat.two_pos, by decide, MemoryStoreConfig.defaultBatch_pos⟩

/-- The statements of an admission of one new key. -/
def loginMoves : letI := vectorSha2; List Move :=
  letI := vectorSha2
  List.replicate 7 (.run 0 0 .advance)

/-- One row is far below the hard maximum. -/
theorem oneLogin_rows (shard : CapacityShard) :
    (oneLogin.keys.filter fun key => capacityShard key = shard).card ≤ hardMaxRowsPerShard := by
  refine (Finset.card_filter_le _ _).trans ?_
  decide +kernel

/-- A run without a commit brings nothing. -/
theorem not_brings_run [Sha2] (w : World) (i responseNow : ℕ) (statement : Statement) (key : CounterKey) :
    ¬Brings w (.run i responseNow statement) key := by
  rintro ⟨-, -, inserted, hcommitted⟩
  have hmoved : Acts programs w (.run i responseNow statement) _ _ ∨ _ := moveOn_cases (.run i responseNow statement) w
  rcases hmoved with hacts | hblocked
  · rw [hcommitted] at hacts
    cases hacts
  · rw [hblocked] at hcommitted
    cases hcommitted

theorem login_uncrossed :
    letI := vectorSha2
    Uncrossed (migrate oneLogin) [] loginMoves 0 twoRows (.check lateLogin) := by
  refine @Uncrossed.mk vectorSha2 _ _ _ _ _ _ ?_ ?_ ?_ ?_
  · decide +kernel
  · let := vectorSha2
    intro move hmove
    rw [List.eq_of_mem_replicate hmove]
    exact ⟨nofun, nofun⟩
  · let := vectorSha2
    -- no other session commits meanwhile, so nothing is brought
    rintro c - part hpart ⟨earlier, move, later, rfl, hbrings⟩
    have hmove : move ∈ loginMoves := hpart.subset (List.mem_append_right _ List.mem_cons_self)
    rw [List.eq_of_mem_replicate hmove] at hbrings
    exact absurd hbrings (not_brings_run _ _ _ _ _)
  · decide +kernel

/-- The second login is admitted where there is room for it. -/
theorem capacity_ledgers_exact_login :
    letI := vectorSha2
    (interleaved (migrate oneLogin) []).committed.ledger (capacityShard lateLogin.counterKey) = 1 ∧
    (moveOn programs (.commit 0) (beforeCommit (migrate oneLogin) [] loginMoves 0 twoRows
      (.check lateLogin))).2.committed.ledger (capacityShard lateLogin.counterKey) = 2 ∧
    (moveOn programs (.commit 0) (beforeCommit (migrate oneLogin) [] loginMoves 0 twoRows
      (.check lateLogin))).2.committed.ledger (capacityShard lateLogin.counterKey) ≤
      max twoRows.maximumRowsPerShard ((beforeCommit (migrate oneLogin) [] loginMoves 0 twoRows
        (.check lateLogin)).committed.ledger (capacityShard lateLogin.counterKey)) :=
  ⟨by decide +kernel, by decide +kernel,
    ((@capacity_ledgers_exact vectorSha2).1 oneLogin oneLogin_rows).2 _ _ _ _ _ login_uncrossed _⟩

/-- The maximum of a committed admission. -/
def committedMaximum [Sha2] : Occurrence Report → Option ℕ
  | .committed (.admitted config _ _ _) => some config.maximumRowsPerShard
  | _ => none

/-- An admission with a maximum of one row leaves a shard that had one with two. -/
theorem overfilled :
    letI := vectorSha2
    (∀ shard, (oneLogin.keys.filter fun key => capacityShard key = shard).card ≤ hardMaxRowsPerShard) ∧
    committedMaximum (moveOn programs (.commit 0) (interleaved (migrate oneLogin) crossedMoves)).1 = some 1 ∧
    (interleaved (migrate oneLogin) crossedMoves).committed.ledger (capacityShard lateLogin.counterKey) = 1 ∧
    (moveOn programs (.commit 0) (interleaved (migrate oneLogin) crossedMoves)).2.committed.ledger
      (capacityShard lateLogin.counterKey) = 2 := by
  let := vectorSha2
  exact ⟨oneLogin_rows, by decide +kernel, by decide +kernel, by decide +kernel⟩

end PgWindows

end Runlimit
