import Runlimit.Proof.BatchChecks
import Runlimit.Proof.Durable
import Runlimit.Proof.PgGcraRate

/-!
# The durable and the memory GCRA agree

The two stores keep different states for the same history: the memory store records the time of a
denial and deletes what has expired, PostgreSQL rolls a denial back and keeps expired rows until a
cleanup. What they agree on is the live entry of every key (`Coupled`); the durable limiter decides a
batch on nothing else (`Readable.transact_eq`), so that both come to the same decision
(`Durable.compared`). `gcra_backends_agree` is the simulation over whole runs.
-/

namespace Runlimit

open Gcra (ArithmeticOverflow)
open Durable (live firstDenial)

namespace PgGcra

variable {tables tables' : GcraTables} {key : CounterKey} {now : ℕ}

/-! ## The rows as entries -/

/-- A row, as an entry of the memory store. -/
def asEntry (row : GcraRow) : StoredEntry GcraEntry := ⟨⟨row.tatScaled⟩, row.expiresAtMs⟩

/-- What the tables store for a key. -/
def storedRow (tables : GcraTables) (key : CounterKey) : Option (StoredEntry GcraEntry) :=
  (tables.rows.lookup key).map asEntry

/-- The arrival time of a row counts until the row expires. -/
theorem activeTat_eq :
    activeTat now (tables.rows.lookup key) = (live (storedRow tables) now key).map (·.value.tatScaled) := by
  unfold activeTat live storedRow
  cases tables.rows.lookup key with
  | none => rfl
  | some row =>
    rw [Option.map_some, Option.filter_some, Option.filter_some]
    unfold asEntry
    split
    · rfl
    · rfl

/-! ## The evaluation of a batch -/

section Evaluation

variable [Sha2]

/-- What an allowed verdict leaves to commit. -/
def pendings (verdicts : List (Check GcraPolicy × Verdict GcraEntry)) : List Gcra.PendingAllowance :=
  verdicts.filterMap fun
    | (_, .allowed entry allowance) => some ⟨entry.value.tatScaled, entry.expiresAtMillis, allowance⟩
    | (_, .denied _) => none

/-- An evaluation of the memory store is one of the database on the same row. -/
theorem gcra_live (c : Check GcraPolicy) :
    gcra.evaluate c now (live (storedRow tables) now c.counterKey) =
      (Gcra.evaluate c now (activeTat now (tables.rows.lookup c.counterKey))).map gcraVerdict := by
  rw [activeTat_eq]
  rfl

/-- **The loop of the durable limiter evaluates the batch as the reference store does**, and keeps the
first denial it finds. -/
theorem evaluateFrom_eq {maximum : ℕ} : ∀ {checks : List (Check GcraPolicy)},
    (∀ c ∈ checks, storedCounter c (tables.rows.lookup c.counterKey) = .ok (tables.rows.lookup c.counterKey)) →
    ∀ (index : ℕ) (counts : CapacityShard → ℕ) (denial : Option Admission) (pending : List Gcra.PendingAllowance),
    evaluateFrom maximum now index (checks.zip (checks.map fun c => tables.rows.lookup c.counterKey)) counts denial
        pending =
      match evaluateAll gcra now (fun c => live (storedRow tables) now c.counterKey) checks with
      | .error _ => .error (.storageInvariant "GCRA arithmetic exceeded exact range")
      | .ok verdicts =>
        match denial <|> firstDenial maximum (fun key => (tables.rows.lookup key).isNone) index counts verdicts with
        | some denial => .ok (.denied denial)
        | none => .ok (.allowed (pending ++ pendings verdicts)) := by
  intro checks
  induction checks with
  | nil =>
    intro _ index counts denial pending
    cases denial with
    | some denial => rfl
    | none =>
      change Except.ok (Pending.allowed pending) = Except.ok (Pending.allowed (pending ++ []))
      rw [List.append_nil]
  | cons c rest ih =>
    intro hstored index counts denial pending
    rw [List.forall_mem_cons] at hstored
    have hrest := ih hstored.2
    have hverdict := @gcra_live tables now _ c
    have hall : evaluateAll gcra now (fun c => live (storedRow tables) now c.counterKey) (c :: rest) =
        (do
          let verdict ← gcra.evaluate c now (live (storedRow tables) now c.counterKey)
          let verdicts ← evaluateAll gcra now (fun c => live (storedRow tables) now c.counterKey) rest
          return (c, verdict) :: verdicts) := by
      unfold evaluateAll
      rw [List.mapM_cons]
      cases gcra.evaluate c now (live (storedRow tables) now c.counterKey) with
      | error e => rfl
      | ok verdict => rfl
    rw [List.map_cons, List.zip_cons_cons]
    unfold evaluateFrom
    rw [hstored.1, except_ok_bind, hall, hverdict]
    generalize evaluateAll gcra now (fun c => live (storedRow tables) now c.counterKey) rest = evaluated at *
    cases Gcra.evaluate c now (activeTat now (tables.rows.lookup c.counterKey)) with
    | error e => rfl
    | ok evaluation =>
      cases evaluation with
      | denied quota =>
        -- the first denial is kept, and the evaluation goes on
        simp only [hrest]
        cases evaluated with
        | error e => rfl
        | ok verdicts =>
          cases denial with
          | none => rfl
          | some denial => rfl
      | allowed allowance =>
        simp only [hrest]
        cases evaluated with
        | error e =>
          simp only [except_map_ok, except_ok_bind, except_error_bind]
          split
          · rfl
          · rfl
        | ok verdicts =>
          have hpendings : pending ++ pendings ((c, gcraVerdict (.allowed allowance)) :: verdicts) =
              (pending ++ [allowance]) ++ pendings verdicts := by
            rw [List.append_assoc]
            rfl
          have hfirst : firstDenial maximum (fun key => (tables.rows.lookup key).isNone) index counts
              ((c, gcraVerdict (.allowed allowance)) :: verdicts) =
            if (tables.rows.lookup c.counterKey).isNone then
              if maximum ≤ counts (capacityShard c.counterKey) then some (.denied index (.storageCapacity none))
              else firstDenial maximum (fun key => (tables.rows.lookup key).isNone) (index + 1)
                (Function.update counts (capacityShard c.counterKey) (counts (capacityShard c.counterKey) + 1)) verdicts
            else firstDenial maximum (fun key => (tables.rows.lookup key).isNone) (index + 1) counts verdicts := rfl
          simp only [except_map_ok, except_ok_bind, except_pure, hpendings, hfirst]
          -- only a check without a row is counted
          by_cases hfresh : (tables.rows.lookup c.counterKey).isNone = true
          · simp only [if_pos hfresh]
            by_cases hfull : maximum ≤ counts (capacityShard c.counterKey)
            · simp only [if_pos hfull]
              cases denial with
              | none => rfl
              | some denial => rfl
            · simp only [if_neg hfull]
          · simp only [if_neg hfresh]

end Evaluation

/-! ## Transactions on a sound ledger -/

/-- No shard holds more rows than the `CHECK` of the ledger admits. -/
def WithinCheck (tables : GcraTables) : Prop := ∀ shard, (tables.shards shard).rowCount ≤ hardMaxRowsPerShard

/-- No count passes its `CHECK` by an upsert. -/
theorem WithinCheck.upsertRow {entry : CounterKey × GcraRow} (h : WithinCheck tables)
    (hok : PgGcra.upsertRow tables entry = .ok tables') : WithinCheck tables' := by
  unfold PgGcra.upsertRow at hok
  split at hok
  · cases hok
    exact h
  · simp only at hok
    split at hok
    · cases hok
    · rename_i hroom
      cases hok
      intro shard
      by_cases hshard : shard = capacityShard entry.1
      · subst hshard
        simp only [Function.update_self]
        omega
      · simp only [Function.update_of_ne hshard]
        exact h shard

/-- Nor by a deletion. -/
theorem WithinCheck.deleteRow {key : CounterKey} (h : WithinCheck tables)
    (hok : PgGcra.deleteRow tables key = .ok tables') : WithinCheck tables' := by
  unfold PgGcra.deleteRow at hok
  split at hok
  · cases hok
    exact h
  · simp only at hok
    split at hok
    · cases hok
    · cases hok
      intro shard
      have hle := h shard
      by_cases hshard : shard = capacityShard key
      · subst hshard
        simp only [Function.update_self]
        omega
      · simp only [Function.update_of_ne hshard]
        exact hle

theorem WithinCheck.setObserved (h : WithinCheck tables) (shards : List CapacityShard) (now : ℕ) :
    WithinCheck (PgGcra.setObserved shards now tables) := by
  intro shard
  have hle := h shard
  unfold PgGcra.setObserved
  simp only
  split
  · exact hle
  · exact hle

/-- What every step of a fold that may fail preserves, the fold preserves. -/
theorem foldlM_ok_inv {α ε S : Type} {step : S → α → Except ε S} {Inv : S → Prop}
    (hstep : ∀ s a s', Inv s → step s a = .ok s' → Inv s') : ∀ {l : List α} {s s' : S}, Inv s →
    l.foldlM step s = .ok s' → Inv s' := by
  intro l
  induction l with
  | nil =>
    intro s s' hs h
    cases h
    exact hs
  | cons a rest ih =>
    intro s s' hs h
    rw [List.foldlM_cons] at h
    obtain ⟨middle, hmiddle, h⟩ := except_bind_eq_ok.1 h
    exact ih (hstep s a middle hs hmiddle) h

/-- Nor by a cleanup. -/
theorem WithinCheck.cleanup (h : WithinCheck tables) (run : CleanupRun) : WithinCheck (cleanupExpired run tables).2 := by
  unfold cleanupExpired
  split
  · exact h
  · cases htransaction : cleanupTransaction run tables with
    | error e => exact h
    | ok result =>
      obtain ⟨removed, tables'⟩ := result
      unfold cleanupTransaction at htransaction
      obtain ⟨final, hfinal, hok⟩ := except_bind_eq_ok.1 htransaction
      cases hok
      exact foldlM_ok_inv (fun _ _ _ hs => hs.deleteRow) (h.setObserved _ _) hfinal

/-- The ledger of a sound table is read without an error. -/
theorem readLedger_eq (h : WithinCheck tables) (shards : List CapacityShard) (now : ℕ) :
    ∃ now', readLedger tables shards now = .ok now' := by
  induction shards generalizing now with
  | nil => exact ⟨now, rfl⟩
  | cons shard rest ih =>
    unfold readLedger
    rw [if_neg (Nat.not_lt.2 (h shard))]
    exact ih _

section Transactions

variable [Sha2] {config : PostgresConfig} {checks : List (Check GcraPolicy)}

/-- Expiries in range are written. -/
theorem upsertRows_eq : ∀ {checks : List (Check GcraPolicy)} {allowances : List Gcra.PendingAllowance},
    (∀ allowance ∈ allowances, allowance.expiresAtMillis ≤ i64Max) →
    upsertRows checks allowances = .ok (written checks allowances) := by
  intro checks
  induction checks with
  | nil => exact fun _ => rfl
  | cons c rest ih =>
    intro allowances h
    cases allowances with
    | nil => rfl
    | cons allowance allowances =>
      rw [List.forall_mem_cons] at h
      unfold upsertRows
      rw [if_neg (Nat.not_lt.2 h.1), ih h.2]
      rfl

theorem length_pendings : ∀ {verdicts : List (Check GcraPolicy × Verdict GcraEntry)},
    (∀ p ∈ verdicts, ∃ entry allowance, p.2 = .allowed entry allowance) →
    (pendings verdicts).length = verdicts.length := by
  intro verdicts
  induction verdicts with
  | nil => exact fun _ => rfl
  | cons p rest ih =>
    intro h
    rw [List.forall_mem_cons] at h
    obtain ⟨⟨entry, allowance, hv⟩, hrest⟩ := h
    obtain ⟨c, v⟩ := p
    simp only at hv
    subst hv
    have hcons : (pendings ((c, .allowed entry allowance) :: rest)).length = (pendings rest).length + 1 := rfl
    rw [hcons, List.length_cons, ih hrest]

/-- Without a denial there is room for every new row. -/
theorem upsert_total {maximum : ℕ} (hmaximum : maximum ≤ hardMaxRowsPerShard) {fresh : CounterKey → Bool} :
    ∀ {verdicts : List (Check GcraPolicy × Verdict GcraEntry)} {index : ℕ} {counts : CapacityShard → ℕ}
      {tables : GcraTables}, firstDenial maximum fresh index counts verdicts = none →
      (∀ p ∈ verdicts, counts (capacityShard p.1.counterKey) =
        (tables.shards (capacityShard p.1.counterKey)).rowCount) →
      (∀ p ∈ verdicts, fresh p.1.counterKey = (tables.rows.lookup p.1.counterKey).isNone) →
      (verdicts.map fun p => p.1.counterKey).Nodup →
      ∃ tables', (written (verdicts.map Prod.fst) (pendings verdicts)).foldlM upsertRow tables = .ok tables' := by
  intro verdicts
  induction verdicts with
  | nil => exact fun {_ _ tables} _ _ _ _ => ⟨tables, rfl⟩
  | cons p rest ih =>
    intro index counts tables hdenial hcounts hfresh hnodup
    obtain ⟨c, v⟩ := p
    rw [List.map_cons, List.nodup_cons] at hnodup
    rw [List.forall_mem_cons] at hcounts hfresh
    cases v with
    | denied denial => cases hdenial
    | allowed entry allowance =>
      have hwritten : written (((c, Verdict.allowed entry allowance) :: rest).map Prod.fst)
          (pendings ((c, .allowed entry allowance) :: rest)) =
          (c.counterKey, ⟨entry.value.tatScaled, entry.expiresAtMillis⟩) ::
            written (rest.map Prod.fst) (pendings rest) := rfl
      rw [hwritten, List.foldlM_cons]
      -- the other keys of the batch keep their rows, since no key comes twice
      have hother : ∀ (rows : Table CounterKey GcraRow) (row : GcraRow), ∀ p ∈ rest,
          (rows.insert c.counterKey row).lookup p.1.counterKey = rows.lookup p.1.counterKey := by
        intro rows row p hp
        rw [Finmap.lookup_insert_if, if_neg]
        intro heq
        exact hnodup.1 (List.mem_map.2 ⟨p, hp, heq⟩)
      unfold firstDenial at hdenial
      simp only [hfresh.1] at hdenial
      unfold upsertRow
      simp only
      cases hlookup : tables.rows.lookup c.counterKey with
      | some row =>
        simp only [hlookup, Option.isNone_some, Bool.false_eq_true, if_false] at hdenial
        simp only [except_ok_bind]
        refine ih hdenial hcounts.2 ?_ hnodup.2
        intro p hp
        simp only [hother _ _ p hp]
        exact hfresh.2 p hp
      | none =>
        simp only [hlookup, Option.isNone_none, if_true] at hdenial
        split at hdenial
        · cases hdenial
        · rename_i hroom
          have hcount := hcounts.1
          have hroom' : ¬hardMaxRowsPerShard ≤ (tables.shards (capacityShard c.counterKey)).rowCount := by
            simp only at hcount
            omega
          simp only [if_neg hroom', except_ok_bind]
          refine ih hdenial ?_ ?_ hnodup.2
          · intro p hp
            by_cases hshard : capacityShard p.1.counterKey = capacityShard c.counterKey
            · simp only [hshard, Function.update_self]
              simp only at hcount
              omega
            · simp only [Function.update_of_ne hshard]
              exact hcounts.2 p hp
          · intro p hp
            simp only [hother _ _ p hp]
            exact hfresh.2 p hp

/-- The allowances of the allowed checks, in order. -/
theorem pendings_allowances (verdicts : List (Check GcraPolicy × Verdict GcraEntry)) :
    (pendings verdicts).map (·.allowance) = allowances verdicts := by
  unfold pendings allowances
  rw [List.map_filterMap]
  refine List.filterMap_congr ?_
  intro p _
  obtain ⟨c, v⟩ := p
  cases v with
  | allowed entry allowance => rfl
  | denied denial => rfl

/-- What makes an admission a function of the live rows: the ledger is within its `CHECK`, the
stored rows pass theirs, and the clock has reached every time. -/
structure Readable (checks : List (Check GcraPolicy)) (now : ℕ) (tables : GcraTables) : Prop where
  within : WithinCheck tables
  stored : ∀ c ∈ checks, storedCounter c (tables.rows.lookup c.counterKey) = .ok (tables.rows.lookup c.counterKey)
  observed_le : ∀ shard, (tables.shards shard).observedAtMs ≤ now

theorem Readable.clampedMs_eq (h : Readable checks now tables) : clampedMs tables checks now = now := by
  unfold clampedMs
  exact max_eq_left (Finset.sup_le fun shard _ => h.observed_le shard)

/-- The rows of the shards a batch locked. -/
def countsOf (tables : GcraTables) (checks : List (Check GcraPolicy)) (shard : CapacityShard) : ℕ :=
  if shard ∈ lockedShards checks then (tables.shards shard).rowCount else 0

/-- What a batch comes to on these tables. -/
def outcome (config : PostgresConfig) (now : ℕ) (checks : List (Check GcraPolicy)) (tables : GcraTables) :
    Durable.Outcome GcraPolicy GcraEntry :=
  Durable.evaluate gcra config.maximumRowsPerShard now (storedRow tables) (countsOf tables checks) checks

variable {D : Type} {build : Admission → Except PgCheckError D}

/-- A transaction up to its evaluation. -/
theorem Readable.transact_eq (h : Readable checks now tables) :
    transact config now checks build tables =
      match outcome config now checks tables with
      | .overflow => .error (.storageInvariant "GCRA arithmetic exceeded exact range")
      | .denied admission => do return (← build admission, none)
      | .allowed verdicts => do
        let entries ← upsertRows checks (pendings verdicts)
        let decision ← build (.allowed (allowances verdicts))
        let tables ← entries.foldlM upsertRow tables
        if entries.length ≠ checks.length then invariant "GCRA upsert count disagrees with the batch"
        else return (decision, some (setObserved (lockedShards checks) now tables)) := by
  obtain ⟨now', hledger⟩ := readLedger_eq h.within (lockedShards checks) now
  have hnow : now' = now := (readLedger_ok hledger).trans h.clampedMs_eq
  subst hnow
  have hfresh : (fun key => (storedRow tables key).isNone) = fun key => (tables.rows.lookup key).isNone :=
    funext fun key => Option.isNone_map
  have hcounts : (fun shard => if shard ∈ lockedShards checks then (tables.shards shard).rowCount else 0) =
    countsOf tables checks := rfl
  unfold transact evaluate outcome Durable.evaluate
  simp only [hledger, except_ok_bind, evaluateFrom_eq h.stored, hfresh, hcounts]
  cases evaluateAll gcra now' (fun c => live (storedRow tables) now' c.counterKey) checks with
  | error e => rfl
  | ok verdicts =>
    have hnone : ∀ admission : Option Admission, (none <|> admission) = admission := fun _ => rfl
    simp only [hnone]
    cases firstDenial config.maximumRowsPerShard (fun key => (tables.rows.lookup key).isNone) 0 (countsOf tables checks)
        verdicts with
    | some admission => rfl
    | none => simp only [List.nil_append, pendings_allowances, except_ok_bind]

/-- A batch that is not denied is committed, if its expiries fit. -/
theorem Readable.transact_allowed (h : Readable checks now tables) (hnodup : (checks.map Check.counterKey).Nodup)
    {verdicts : List (Check GcraPolicy × Verdict GcraEntry)} (houtcome : outcome config now checks tables = .allowed verdicts)
    (hrange : ∀ pending ∈ pendings verdicts, pending.expiresAtMillis ≤ i64Max) {decision : D}
    (hbuild : build (.allowed (allowances verdicts)) = .ok decision) :
    ∃ tables', transact config now checks build tables = .ok (decision, some tables') ∧ WithinCheck tables' ∧
      ∃ allowances', Committed now checks allowances' tables tables' := by
  obtain ⟨hverdicts, hdenial⟩ := Durable.evaluate_allowed houtcome
  obtain ⟨hfst, -⟩ := evaluateAll_ok hverdicts
  -- the counts that were read are those of the ledger
  have hcounts : ∀ p ∈ verdicts, countsOf tables checks (capacityShard p.1.counterKey) =
        (tables.shards (capacityShard p.1.counterKey)).rowCount := by
    intro p hp
    have hc : p.1 ∈ checks := hfst ▸ List.mem_map_of_mem hp
    unfold countsOf
    rw [if_pos (mem_lockedShards.2 ⟨p.1, hc, rfl⟩)]
  have hkeys := nodup_verdicts hfst hnodup
  obtain ⟨upserted, hupserted⟩ := upsert_total config.rows_le hdenial hcounts (fun _ _ => Option.isNone_map) hkeys
  rw [hfst] at hupserted
  have hlength : (pendings verdicts).length = checks.length := by
    rw [length_pendings (Durable.firstDenial_none hdenial), ← hfst, List.length_map]
  have htransact : transact config now checks build tables =
      .ok (decision, some (setObserved (lockedShards checks) now upserted)) := by
    rw [h.transact_eq, houtcome]
    simp only [upsertRows_eq hrange, except_ok_bind, hbuild, hupserted]
    rw [if_neg]
    · rfl
    · unfold written
      rw [List.length_zipWith, hlength, Nat.min_self]
      exact fun h => h rfl
  have hwithin : WithinCheck upserted := foldlM_ok_inv (fun _ _ _ hs => hs.upsertRow) h.within hupserted
  refine ⟨_, htransact, hwithin.setObserved _ _, ?_⟩
  rcases transact_cases htransact with ⟨hnone, -⟩ | ⟨tables', allowances', hsome, hcommitted, -⟩
  · cases hnone
  · cases hsome
    exact ⟨allowances', hcommitted⟩

end Transactions

/-! ## The coupling -/

section Coupling

variable [Sha2] {config : PostgresConfig} {memory : MemoryStoreConfig} {store : RefStore memory GcraEntry}
  {known : Set GcraPolicy} {time : ℕ}

/-- A row that the checks of the known policies read without an error. -/
def Consistent (known : Set GcraPolicy) (key : CounterKey) (row : GcraRow) : Prop :=
  row.tatScaled ≤ u128Max ∧
    ∀ p ∈ known, p.fingerprint = key.fingerprint → divCeil row.tatScaled p.quota.get = row.expiresAtMs

/-- The tables and the reference store stand for the same live entries at this time, and neither has
observed a later one. -/
structure Coupled (known : Set GcraPolicy) (time : ℕ) (tables : GcraTables) (store : RefStore memory GcraEntry) :
    Prop where
  within : WithinCheck tables
  consistent : ∀ key row, tables.rows.lookup key = some row → Consistent known key row
  observed_le : ∀ shard, (tables.shards shard).observedAtMs ≤ time
  reference_le : ∀ i, (store i).observedMillis ≤ time
  live : ∀ key, live (storedRow tables) time key = live (Durable.entryOf store) time key

/-- New tables and a new store agree. -/
theorem Coupled.new : Coupled known 0 migrated (RefStore.new memory) where
  within _ := Nat.zero_le _
  consistent key row h := by simp [migrated] at h
  observed_le _ := le_rfl
  reference_le _ := le_rfl
  live key := by simp [Durable.live, storedRow, Durable.entryOf, migrated, RefStore.new, RefShard.new]

/-- They agree later. -/
theorem Coupled.mono (h : Coupled known time tables store) (hle : time ≤ now) : Coupled known now tables store where
  within := h.within
  consistent := h.consistent
  observed_le shard := (h.observed_le shard).trans hle
  reference_le i := (h.reference_le i).trans hle
  live := Durable.live_mono h.live hle

/-- Rows that agree with the memory store are read without a failure. -/
theorem Coupled.readable (h : Coupled known time tables store) {checks : List (Check GcraPolicy)}
    (hchecks : ∀ c ∈ checks, c.policy ∈ known) : Readable checks time tables where
  within := h.within
  observed_le := h.observed_le
  stored := by
    intro c hc
    unfold storedCounter
    cases hrow : tables.rows.lookup c.counterKey with
    | none => rfl
    | some row =>
      obtain ⟨htat, hexpires⟩ := h.consistent _ row hrow
      have heq := hexpires c.policy (hchecks c hc) rfl
      simp only
      rw [if_neg (Nat.not_lt.2 htat), if_neg (fun hne => hne heq)]

/-- A cleanup deletes nothing that is live. -/
theorem Coupled.cleanup (h : Coupled known time tables store) {run : CleanupRun} (hsample : run.advanceSample ≤ time) :
    Coupled known time (cleanupExpired run tables).2 store := by
  obtain ⟨hcleaned, hbound⟩ := cleanup_step run tables
  have hobserved := hbound time hsample h.observed_le
  refine ⟨h.within.cleanup run, ?_, hobserved, h.reference_le, ?_⟩
  · intro key row hrow
    rcases hcleaned.lookup key with hsame | ⟨hnone, -⟩
    · rw [hsame] at hrow
      exact h.consistent key row hrow
    · rw [hnone] at hrow
      cases hrow
  · intro key
    rw [← h.live key]
    rcases hcleaned.lookup key with hsame | ⟨hnone, row, hrow, hexpired⟩
    · unfold Durable.live storedRow
      rw [hsame]
    · have hle : (asEntry row).expiresAtMillis ≤ time := hexpired.trans (hobserved _)
      unfold Durable.live storedRow
      rw [hnone, hrow, Option.map_some, Option.filter_some, if_neg (by simpa using hle)]
      rfl

/-- A denial lets time pass on the reference store only. -/
theorem Coupled.denied (h : Coupled known time tables store) (shards : Finset (Fin memory.shardCount)) :
    Coupled known time tables (store.advance shards time) where
  within := h.within
  consistent := h.consistent
  observed_le := h.observed_le
  reference_le := by
    intro i
    unfold RefStore.advance
    split
    · exact le_rfl
    · exact h.reference_le i
  live := by
    intro key
    rw [Durable.live_advance]
    exact h.live key

/-- An allowed evaluation leaves a row every later check can read. -/
theorem consistent_rowOf (hfree : Set.InjOn Sha2.sha256 (GcraPolicy.preimage '' known)) {c : Check GcraPolicy}
    (hc : c.policy ∈ known) {pending : Gcra.PendingAllowance} (h : Evaluated time tables c pending) :
    Consistent known c.counterKey (rowOf pending) := by
  obtain ⟨-, -, hexpires⟩ := Gcra.evaluate_level h
  refine ⟨?_, ?_⟩
  · obtain ⟨-, htat, -⟩ := Gcra.exact_allowed (Gcra.evaluate_eq_exact h).symm
    have hle := Gcra.candidate_le h
    rw [← htat] at hle
    exact hle
  · intro p hp hfingerprint
    have hpreimage := hfree (Set.mem_image_of_mem _ hp) (Set.mem_image_of_mem _ hc) hfingerprint
    obtain ⟨-, -, hq, -, -⟩ := GcraPolicy.preimage_inj hpreimage
    rw [hq]
    exact hexpires.symm

/-- Both stores store the same entry for a check. -/
theorem gcraVerdict_evaluated {c : Check GcraPolicy} {pending : Gcra.PendingAllowance}
    (h : Evaluated time tables c pending) :
    gcra.evaluate c time (live (storedRow tables) time c.counterKey) =
      .ok (.allowed (asEntry (rowOf pending)) pending.allowance) := by
  rw [gcra_live, h]
  rfl

/-- A committed batch leaves the same live entries in both stores. -/
theorem Coupled.committed (h : Coupled known time tables store)
    (hfree : Set.InjOn Sha2.sha256 (GcraPolicy.preimage '' known)) {checks : List (Check GcraPolicy)}
    (hchecks : ∀ c ∈ checks, c.policy ∈ known) (hnodup : (checks.map Check.counterKey).Nodup)
    {verdicts : List (Check GcraPolicy × Verdict GcraEntry)}
    (hverdicts : evaluateAll gcra time (fun c => Durable.live (storedRow tables) time c.counterKey) checks = .ok verdicts)
    {allowances : List Gcra.PendingAllowance} (hcommitted : Committed time checks allowances tables tables')
    (hwithin : WithinCheck tables') :
    Coupled known time tables' ((store.advance (touched memory checks) time).putAll verdicts) := by
  obtain ⟨hfst, hall⟩ := evaluateAll_ok hverdicts
  have hclamped := (h.readable hchecks).clampedMs_eq
  -- each key of the batch has the row of its evaluation
  have hmem : ∀ c ∈ checks, ∃ pending, Evaluated time tables c pending ∧
      tables'.rows.lookup c.counterKey = some (rowOf pending) := by
    intro c hc
    obtain ⟨pending, hevaluated, hlookup⟩ := hcommitted.lookup_of_mem hnodup hc
    rw [hclamped] at hevaluated
    exact ⟨pending, hevaluated, hlookup⟩
  refine ⟨hwithin, ?_, ?_, ?_, ?_⟩
  · intro key row hrow
    by_cases hkey : ∃ c ∈ checks, c.counterKey = key
    · obtain ⟨c, hc, rfl⟩ := hkey
      obtain ⟨pending, hevaluated, hlookup⟩ := hmem c hc
      rw [hlookup, Option.some.injEq] at hrow
      rw [← hrow]
      exact consistent_rowOf hfree (hchecks c hc) hevaluated
    · rw [hcommitted.lookup_of_notMem fun c hc heq => hkey ⟨c, hc, heq⟩] at hrow
      exact h.consistent key row hrow
  · intro shard
    rw [hcommitted.observed_eq, hclamped]
    split
    · exact le_rfl
    · exact h.observed_le shard
  · intro i
    rw [RefStore.observed_putAll]
    exact (h.denied (touched memory checks)).reference_le i
  · -- what is live agrees at the keys of the batch, and at the others as before
    refine Durable.live_putAll h.live hfst hnodup ?_ ?_
    · intro p hp
      have hc : p.1 ∈ checks := hfst ▸ List.mem_map_of_mem hp
      obtain ⟨pending, hevaluated, hlookup⟩ := hmem p.1 hc
      have hverdict := hall p hp
      rw [gcraVerdict_evaluated hevaluated, Except.ok.injEq] at hverdict
      refine ⟨_, _, hverdict.symm, ?_⟩
      unfold storedRow
      rw [hlookup, Option.map_some]
    · intro key hother
      unfold storedRow
      rw [hcommitted.lookup_of_notMem hother]

/-- A denial is reported, and changes nothing. -/
theorem Readable.runTransaction_denied {checks : List (Check GcraPolicy)} (h : Readable checks time tables)
    {admission : Admission} (houtcome : outcome config time checks tables = .denied admission) {D : Type}
    {build : Admission → Except PgCheckError D} :
    runTransaction config time checks build tables = (build admission, tables) := by
  unfold runTransaction
  rw [h.transact_eq, houtcome]
  simp only
  cases build admission with
  | error e => rfl
  | ok decision => rfl

/-- **One batch in both stores.** What is settled is reported, and leaves both stores coupled. -/
theorem Coupled.settled (h : Coupled known time tables store)
    (hfree : Set.InjOn Sha2.sha256 (GcraPolicy.preimage '' known)) {checks : List (Check GcraPolicy)}
    (hchecks : ∀ c ∈ checks, c.policy ∈ known) (hnodup : (checks.map Check.counterKey).Nodup)
    {result : Except GcraBatchError BatchDecision × RefStore memory GcraEntry}
    (hsettled : Durable.Settled time checks store (outcome config time checks tables) result)
    (hrange : ∀ i key entry, (result.2 i).entries.lookup key = some entry → entry.expiresAtMillis ≤ i64Max)
    {D : Type} {build : Admission → Except PgCheckError D}
    (hdecided : outcome config time checks tables = .overflow ∨
      ∃ decision, Durable.decided build (outcome config time checks tables) = .ok decision) :
    ∃ tables', runTransaction config time checks build tables =
        (Durable.decided build (outcome config time checks tables), tables') ∧ Coupled known time tables' result.2 := by
  have hreadable := h.readable hchecks
  have htransact := @Readable.transact_eq tables time _ config checks _ build hreadable
  generalize houtcome : outcome config time checks tables = decided at htransact hsettled hdecided ⊢
  cases hsettled with
  | overflow =>
    refine ⟨tables, ?_, h⟩
    unfold runTransaction
    rw [htransact]
    rfl
  | denied index hindex c denial => exact ⟨tables, hreadable.runTransaction_denied houtcome, h.denied _⟩
  | allowed verdicts hfst hallowed =>
    obtain ⟨decision, hbuild⟩ : ∃ decision, build (.allowed (allowances verdicts)) = .ok decision := by
      rcases hdecided with hoverflow | hdecided
      · cases hoverflow
      · exact hdecided
    -- the expiries that would be written are those of the memory store
    have hpending : ∀ pending ∈ pendings verdicts, pending.expiresAtMillis ≤ i64Max := by
      intro pending hpending
      obtain ⟨⟨c, v⟩, hp, hv⟩ := List.mem_filterMap.1 hpending
      cases v with
      | denied denial => cases hv
      | allowed entry allowance =>
        cases hv
        exact hrange _ _ entry (RefStore.lookup_putAll_of_mem _ (nodup_verdicts hfst hnodup) hp)
    obtain ⟨tables', hok, hwithin, allowances', hcommitted⟩ :=
      hreadable.transact_allowed hnodup houtcome hpending hbuild
    obtain ⟨hverdicts, -⟩ := Durable.evaluate_allowed houtcome
    refine ⟨tables', ?_, h.committed hfree hchecks hnodup hverdicts hcommitted hwithin⟩
    unfold runTransaction Durable.decided
    simp only [hok, hbuild]

end Coupling

/-! ## Runs -/

section Runs

variable [Sha2] {config : PostgresConfig} {memory : MemoryStoreConfig} {known : Set GcraPolicy} {time : ℕ}
  {shards : BoundedShards memory GcraEntry}

/-- The memory store, given the commands of the durable one: it has no cleanup of its own. -/
def memoryPerform (command : Command) (shards : BoundedShards memory GcraEntry) :
    Option Response × BoundedShards memory GcraEntry :=
  match command with
  | .tryAdmit sample request =>
    let (response, shards) := GcraStore.tryAdmit (.ok (Duration.fromMillis sample)) request shards
    (some response, shards)
  | .cleanup _ => (none, shards)

/-- The clock samples of a command, in order. -/
def Command.samples : Command → List ℕ
  | .tryAdmit sample _ => [sample]
  | .cleanup run => [run.lockSample, run.advanceSample]

/-- The durable limiter refuses for lack of storage. -/
def Event.outOfStorage : Event → Bool
  | .admission _ _ (.check (.ok (.denied (.storageCapacity _)))) => true
  | .admission _ _ (.checkAll (.ok ⟨.denied _ _ (.storageCapacity _)⟩)) => true
  | _ => false

/-- The memory store refuses for lack of storage. -/
def responseOutOfStorage : Option Response → Bool
  | some (.check (.returned (.ok (.denied (.storageCapacity _))))) => true
  | some (.checkAll (.returned result)) => Durable.outOfStorage result
  | _ => false

/-- The same decision, or the same overflow. -/
def Agrees : Event → Option Response → Prop
  | .admission _ _ (.check result), some (.check (.returned result')) =>
    result.toOption = result'.toOption ∧ (∀ e, result = .error e → e = Durable.overflow ∧ result' = .error .arithmeticOverflow)
  | .admission _ _ (.checkAll result), some (.checkAll (.returned result')) =>
    result.toOption = result'.toOption ∧
      (∀ e, result = .error e → e = .check Durable.overflow ∧ result' = .error .arithmeticOverflow)
  | .cleanup _, none => True
  | _, _ => False

/-- The memory store answers a batch as the reference store does. -/
theorem Coupled.memory_checkAll (h : Coupled known time tables shards.abs) (hs : GcraStore.Sound shards)
    (htime : time ≤ i64Max) (checks : List (Check GcraPolicy)) :
    (GcraStore.tryAdmit (.ok (Duration.fromMillis time)) (.checkAll checks) shards).1 =
        .checkAll (.returned (RefStore.checkAll gcra time checks shards.abs).1) ∧
      (GcraStore.tryAdmit (.ok (Duration.fromMillis time)) (.checkAll checks) shards).2.abs =
        (RefStore.checkAll gcra time checks shards.abs).2 ∧
      GcraStore.Sound (GcraStore.tryAdmit (.ok (Duration.fromMillis time)) (.checkAll checks) shards).2 := by
  have hmillis : (Duration.fromMillis time).asMillis = time := by
    refine Duration.asMillis_fromMillis ?_
    unfold i64Max at htime
    unfold u64Max
    omega
  obtain ⟨hanswer, hsound⟩ := GcraStore.tryAdmit_refines (Duration.fromMillis time) (.checkAll checks) shards hs
  rw [RefStore.answer_checkAll (fun i _ => by rw [hmillis]; exact h.reference_le i), hmillis, Prod.mk.injEq] at hanswer
  exact ⟨hanswer.1.symm, hanswer.2.symm, hsound⟩

omit [Sha2] in
/-- What a store holds is what its shards hold. -/
theorem abs_lookup {i : Fin memory.shardCount} {entry : StoredEntry GcraEntry}
    (h : (shards.abs i).entries.lookup key = some entry) : (shards i).data.entries.lookup key = some entry := by
  unfold BoundedShards.abs Bounded.abs Shard.abs at h
  simp only [Finmap.lookup_filter, Option.filter_eq_some_iff] at h
  exact h.1

/-- **One batch.** -/
theorem Coupled.batch_agrees (h : Coupled known time tables shards.abs) (hs : GcraStore.Sound shards)
    (htime : time ≤ i64Max) (hfree : Set.InjOn Sha2.sha256 (GcraPolicy.preimage '' known))
    {checks : List (Check GcraPolicy)} (hchecks : ∀ c ∈ checks, c.policy ∈ known)
    (hvalid : validateBatch checks config.maxBatchSize = .ok ())
    (hvalid' : validateBatch checks memory.maxBatchSize = .ok ())
    (hrange : ∀ i key entry,
      ((memoryPerform (.tryAdmit time (.checkAll checks)) shards).2 i).data.entries.lookup key = some entry →
      entry.expiresAtMillis ≤ i64Max)
    (hdurable : (perform config (.tryAdmit time (.checkAll checks)) tables).1.outOfStorage = false)
    (hmemory : responseOutOfStorage (memoryPerform (.tryAdmit time (.checkAll checks)) shards).1 = false) :
    Agrees (perform config (.tryAdmit time (.checkAll checks)) tables).1
        (memoryPerform (.tryAdmit time (.checkAll checks)) shards).1 ∧
      Coupled known time (perform config (.tryAdmit time (.checkAll checks)) tables).2
        (memoryPerform (.tryAdmit time (.checkAll checks)) shards).2.abs ∧
      GcraStore.Sound (memoryPerform (.tryAdmit time (.checkAll checks)) shards).2 := by
  obtain ⟨hresponse, hstore, hsound⟩ := h.memory_checkAll hs htime checks
  obtain ⟨hne, hnodup⟩ := validateBatch_ok hvalid
  have hcompared : Durable.Compared time checks shards.abs (outcome config time checks tables)
      (RefStore.checkAll gcra time checks shards.abs) := Durable.compared h.live hvalid'
  unfold memoryPerform at hrange hmemory ⊢
  unfold perform tryAdmit PgGcra.checkAll at hdurable ⊢
  simp only [hvalid] at hdurable ⊢
  simp only [hresponse, hstore] at hmemory ⊢
  -- neither store denies for want of storage, so the outcome decides both
  have hsettled := hcompared.settled_batch (by
    intro index size after hdecision
    obtain ⟨admission, houtcome⟩ := Durable.denied_of_decided hdecision fun allowances hallowed => by
      cases batchDecision_allowed hallowed
    rw [(h.readable hchecks).runTransaction_denied houtcome] at hdurable
    rw [houtcome] at hdecision
    unfold Durable.decided at hdecision
    simp only [hdecision] at hdurable
    cases hdurable) hmemory
  have hanswers := hsettled.batch hne
  have hfits : ∀ i key entry, ((RefStore.checkAll gcra time checks shards.abs).2 i).entries.lookup key = some entry →
      entry.expiresAtMillis ≤ i64Max := by
    intro i key entry hentry
    rw [← hstore] at hentry
    exact hrange i key entry (abs_lookup hentry)
  obtain ⟨tables', hrun, hcoupled⟩ := @Coupled.settled tables _ config memory _ known time h hfree checks hchecks hnodup _
    hsettled hfits _ (batchDecision checks.length) (hanswers.imp And.left fun ⟨decision, hd, _⟩ => ⟨decision, hd⟩)
  rw [hrun]
  refine ⟨?_, hcoupled, hsound⟩
  rcases hanswers with ⟨houtcome, hoverflow⟩ | ⟨decision, hdecision, hok⟩
  · rw [houtcome, hoverflow]
    refine ⟨rfl, ?_⟩
    intro e he
    cases he
    exact ⟨rfl, rfl⟩
  · rw [hdecision, hok]
    exact ⟨rfl, fun e he => by cases he⟩

/-- **One check**, which is a batch of one in both stores. -/
theorem Coupled.check_agrees (h : Coupled known time tables shards.abs) (hs : GcraStore.Sound shards)
    (htime : time ≤ i64Max) (hfree : Set.InjOn Sha2.sha256 (GcraPolicy.preimage '' known)) {c : Check GcraPolicy}
    (hc : c.policy ∈ known)
    (hrange : ∀ i key entry,
      ((memoryPerform (.tryAdmit time (.check c)) shards).2 i).data.entries.lookup key = some entry →
      entry.expiresAtMillis ≤ i64Max)
    (hdurable : (perform config (.tryAdmit time (.check c)) tables).1.outOfStorage = false)
    (hmemory : responseOutOfStorage (memoryPerform (.tryAdmit time (.check c)) shards).1 = false) :
    Agrees (perform config (.tryAdmit time (.check c)) tables).1 (memoryPerform (.tryAdmit time (.check c)) shards).1 ∧
      Coupled known time (perform config (.tryAdmit time (.check c)) tables).2
        (memoryPerform (.tryAdmit time (.check c)) shards).2.abs ∧
      GcraStore.Sound (memoryPerform (.tryAdmit time (.check c)) shards).2 := by
  obtain ⟨hresponse, hstore, hsound⟩ := h.memory_checkAll hs htime [c]
  have hsingle := GcraStore.checkAll_singleton (.ok (Duration.fromMillis time)) c shards hs.inv.countable
  have hcompared : Durable.Compared time [c] shards.abs (outcome config time [c] tables)
      (RefStore.checkAll gcra time [c] shards.abs) := Durable.compared h.live (validateBatch_singleton memory c)
  have hchecks : ∀ d ∈ [c], d.policy ∈ known := by simpa using hc
  -- what the memory store answers to the batch of one, it answers to the check
  have hstate : (GcraStore.tryAdmit (.ok (Duration.fromMillis time)) (.checkAll [c]) shards).2 =
      (memoryPerform (.tryAdmit time (.check c)) shards).2 := congrArg Prod.snd hsingle
  obtain ⟨checked, hchecked⟩ : ∃ checked,
      (GcraStore.tryAdmit (.ok (Duration.fromMillis time)) (.check c) shards).1 = .check checked := ⟨_, rfl⟩
  have hbatch : (Response.check checked).asBatch = .checkAll (.returned (RefStore.checkAll gcra time [c] shards.abs).1) := by
    rw [← hchecked, ← hresponse]
    exact (congrArg Prod.fst hsingle).symm
  have hmemoryResponse : (memoryPerform (.tryAdmit time (.check c)) shards).1 = some (.check checked) :=
    congrArg some hchecked
  rw [hmemoryResponse] at hmemory ⊢
  rw [← hstate] at hrange ⊢
  rw [hstore]
  unfold perform tryAdmit PgGcra.check at hdurable ⊢
  simp only at hdurable ⊢
  have hsettled := hcompared.settled_single hbatch (by
    intro after hdecision
    obtain ⟨admission, houtcome⟩ := Durable.denied_of_decided hdecision fun allowances hallowed => by
      obtain ⟨allowance, -, hne⟩ := singleDecision_allowed hallowed
      cases hne
    rw [(h.readable hchecks).runTransaction_denied houtcome] at hdurable
    rw [houtcome] at hdecision
    unfold Durable.decided at hdecision
    simp only [hdecision] at hdurable
    cases hdurable) (by
    rintro after rfl
    cases hmemory)
  have hanswers := hsettled.single hbatch
  have hfits : ∀ i key entry, ((RefStore.checkAll gcra time [c] shards.abs).2 i).entries.lookup key = some entry →
      entry.expiresAtMillis ≤ i64Max := by
    intro i key entry hentry
    rw [← hstore] at hentry
    exact hrange i key entry (abs_lookup hentry)
  obtain ⟨tables', hrun, hcoupled⟩ := @Coupled.settled tables _ config memory _ known time h hfree [c] hchecks
    (List.nodup_singleton _) _ hsettled hfits _ singleDecision
    (hanswers.imp And.left fun ⟨decision, hd, _⟩ => ⟨decision, hd⟩)
  rw [hrun]
  refine ⟨?_, hcoupled, hsound⟩
  rcases hanswers with ⟨houtcome, rfl⟩ | ⟨decision, hdecision, rfl⟩
  · rw [houtcome]
    refine ⟨rfl, ?_⟩
    intro e he
    cases he
    exact ⟨rfl, rfl⟩
  · rw [hdecision]
    exact ⟨rfl, fun e he => by cases he⟩

/-- The batches of a run, valid for both stores. -/
def ValidBatches (config : PostgresConfig) (memory : MemoryStoreConfig) (commands : List Command) : Prop :=
  ∀ sample checks, Command.tryAdmit sample (.checkAll checks) ∈ commands →
    validateBatch checks config.maxBatchSize = .ok () ∧ validateBatch checks memory.maxBatchSize = .ok ()

/-- Every expiry the memory store holds in a run from these shards fits `BIGINT`. -/
def ExpiriesFit (shards : BoundedShards memory GcraEntry) (commands : List Command) : Prop :=
  ∀ before after, commands = before ++ after → ∀ i key entry,
    (Machine.final memoryPerform shards before i).data.entries.lookup key = some entry →
    entry.expiresAtMillis ≤ i64Max

/-- **One command.** -/
theorem Coupled.perform_agrees (h : Coupled known time tables shards.abs) (hs : GcraStore.Sound shards)
    (hfree : Set.InjOn Sha2.sha256 (GcraPolicy.preimage '' known)) {command : Command}
    (hsamples : ∀ t ∈ command.samples, time ≤ t ∧ t ≤ i64Max) (hcommand : ∀ c ∈ command.checks, c.policy ∈ known)
    (hvalid : ValidBatches config memory [command])
    (hrange : ∀ i key entry, ((memoryPerform command shards).2 i).data.entries.lookup key = some entry →
      entry.expiresAtMillis ≤ i64Max)
    (hdurable : (perform config command tables).1.outOfStorage = false)
    (hmemory : responseOutOfStorage (memoryPerform command shards).1 = false) :
    Agrees (perform config command tables).1 (memoryPerform command shards).1 ∧
      (∃ t ∈ command.samples, Coupled known t (perform config command tables).2 (memoryPerform command shards).2.abs ∧
        ∀ t' ∈ command.samples, command.samples.Pairwise (· ≤ ·) → t' ≤ t) ∧
      GcraStore.Sound (memoryPerform command shards).2 := by
  cases command with
  | cleanup run =>
    -- a cleanup removes expired rows, which the memory store does not count
    have hadvance := hsamples run.advanceSample (List.mem_cons_of_mem _ List.mem_cons_self)
    refine ⟨trivial, ⟨run.advanceSample, List.mem_cons_of_mem _ List.mem_cons_self, ?_, ?_⟩, hs⟩
    · exact (h.mono hadvance.1).cleanup le_rfl
    · intro t' ht' hsorted
      rcases List.mem_pair.1 ht' with rfl | rfl
      · exact (List.pairwise_cons.1 hsorted).1 _ List.mem_cons_self
      · exact le_rfl
  | tryAdmit sample request =>
    have hsample := hsamples sample List.mem_cons_self
    have hcoupled := h.mono hsample.1
    have hlast : ∀ t' ∈ (Command.tryAdmit sample request).samples,
        (Command.tryAdmit sample request).samples.Pairwise (· ≤ ·) → t' ≤ sample := by
      intro t' ht' _
      rw [List.mem_singleton.1 ht']
    cases request with
    | check c =>
      obtain ⟨hagrees, hcoupled', hs'⟩ := hcoupled.check_agrees hs hsample.2 hfree (hcommand c List.mem_cons_self) hrange
        hdurable hmemory
      exact ⟨hagrees, ⟨sample, List.mem_cons_self, hcoupled', hlast⟩, hs'⟩
    | checkAll checks =>
      obtain ⟨hdurableValid, hmemoryValid⟩ := hvalid sample checks List.mem_cons_self
      obtain ⟨hagrees, hcoupled', hs'⟩ := hcoupled.batch_agrees hs hsample.2 hfree hcommand hdurableValid hmemoryValid
        hrange hdurable hmemory
      exact ⟨hagrees, ⟨sample, List.mem_cons_self, hcoupled', hlast⟩, hs'⟩

/-- Runs from coupled states agree. -/
theorem Coupled.run_agrees (hfree : Set.InjOn Sha2.sha256 (GcraPolicy.preimage '' known)) :
    ∀ {commands : List Command} {time : ℕ} {tables : GcraTables} {shards : BoundedShards memory GcraEntry},
      Coupled known time tables shards.abs → GcraStore.Sound shards →
      (∀ t ∈ commands.flatMap Command.samples, time ≤ t ∧ t ≤ i64Max) →
      (commands.flatMap Command.samples).Pairwise (· ≤ ·) →
      (∀ command ∈ commands, ∀ c ∈ command.checks, c.policy ∈ known) → ValidBatches config memory commands →
      ExpiriesFit shards commands →
      (∀ event ∈ Machine.outputs (perform config) tables commands, event.outOfStorage = false) →
      (∀ response ∈ Machine.outputs memoryPerform shards commands, responseOutOfStorage response = false) →
      List.Forall₂ Agrees (Machine.outputs (perform config) tables commands)
        (Machine.outputs memoryPerform shards commands) := by
  intro commands
  induction commands with
  | nil => exact fun {_ _ _} _ _ _ _ _ _ _ _ _ => List.Forall₂.nil
  | cons command rest ih =>
    intro time tables shards hcoupled hs hsamples hsorted hknown hvalid hrange hdurable hmemory
    rw [List.flatMap_cons] at hsamples hsorted
    rw [List.forall_mem_cons] at hknown
    rw [Machine.outputs_cons, List.forall_mem_cons] at hdurable hmemory
    obtain ⟨hsortedHead, hsortedRest, hsortedCross⟩ := List.pairwise_append.1 hsorted
    obtain ⟨hagrees, ⟨t, ht, hcoupled', hlast⟩, hs'⟩ := hcoupled.perform_agrees hs hfree
      (fun t ht => hsamples t (List.mem_append_left _ ht)) hknown.1
      (fun sample checks hmem => hvalid sample checks (by
        rw [List.mem_singleton.1 hmem]
        exact List.mem_cons_self))
      (hrange [command] rest rfl) hdurable.1 hmemory.1
    rw [Machine.outputs_cons, Machine.outputs_cons]
    refine List.Forall₂.cons hagrees (ih hcoupled' hs' ?_ hsortedRest hknown.2 ?_ ?_ hdurable.2 hmemory.2)
    · -- the samples of the rest are not before this one
      intro t' ht'
      exact ⟨hsortedCross t ht t' ht', (hsamples t' (List.mem_append_right _ ht')).2⟩
    · exact fun sample checks hmem => hvalid sample checks (List.mem_cons_of_mem _ hmem)
    · intro before after hsplit
      exact hrange (command :: before) after (by rw [hsplit]; rfl)

/-- The policies of a run. -/
def policiesOf (commands : List Command) : Set GcraPolicy :=
  { p | ∃ command ∈ commands, ∃ c ∈ command.checks, c.policy = p }

/-- **The two GCRA backends agree.** Over any sequence of checks and valid batches at nondecreasing
times, with cleanups anywhere on the side of PostgreSQL, the durable limiter and the memory store return
the same decisions, as long as neither refuses for lack of storage and every expiry fits
`BIGINT`. -/
theorem gcra_backends_agree (config : PostgresConfig) (memory : MemoryStoreConfig) (commands : List Command)
    (hfree : Set.InjOn Sha2.sha256 (GcraPolicy.preimage '' policiesOf commands))
    (hsorted : (commands.flatMap Command.samples).Pairwise (· ≤ ·))
    (hsamples : ∀ t ∈ commands.flatMap Command.samples, t ≤ i64Max) (hvalid : ValidBatches config memory commands)
    (hexpiries : ExpiriesFit (BoundedShards.new memory) commands)
    (hdurable : ∀ event ∈ Machine.outputs (perform config) migrated commands, event.outOfStorage = false)
    (hmemory : ∀ response ∈ Machine.outputs memoryPerform (BoundedShards.new memory) commands,
      responseOutOfStorage response = false) :
    List.Forall₂ Agrees (Machine.outputs (perform config) migrated commands)
      (Machine.outputs memoryPerform (BoundedShards.new memory) commands) := by
  have hcoupled : Coupled (policiesOf commands) 0 migrated (BoundedShards.new memory : BoundedShards memory GcraEntry).abs := by
    rw [BoundedShards.abs_new]
    exact Coupled.new
  refine Coupled.run_agrees hfree hcoupled GcraStore.Sound.new ?_ hsorted ?_ hvalid hexpiries hdurable hmemory
  · exact fun t ht => ⟨Nat.zero_le t, hsamples t ht⟩
  · exact fun command hcommand c hc => ⟨command, hcommand, c, hc, rfl⟩

end Runs

/-- A read, a cleanup and a batch of a read and a write, as time goes on. -/
def advancingCommands : letI := vectorSha2; List Command :=
  letI := vectorSha2
  [.tryAdmit 5 readCall.request, .cleanup ⟨8, 6, 7, ∅, [⟨readPolicy.fingerprint, Digest.replicate 1⟩]⟩,
    .tryAdmit 9 readWriteCall.request]

theorem advancing_policies :
    letI := vectorSha2
    policiesOf advancingCommands ⊆ {readPolicy, writePolicy} := by
  let := vectorSha2
  rintro p ⟨command, hcommand, c, hc, rfl⟩
  simp only [advancingCommands, List.mem_cons, List.not_mem_nil, or_false] at hcommand
  rcases hcommand with rfl | rfl | rfl
  · rw [List.mem_singleton.1 hc]
    exact Or.inl rfl
  · cases hc
  · rcases List.mem_pair.1 hc with rfl | rfl
    · exact Or.inl rfl
    · exact Or.inr rfl

/-- A run whose clock advances, with cleanups between the admissions. -/
theorem gcra_backends_agree_advancing :
    letI := vectorSha2
    List.Forall₂ Agrees (Machine.outputs (perform .new) migrated advancingCommands)
        (Machine.outputs memoryPerform (BoundedShards.new pairConfig) advancingCommands) ∧
      (Machine.outputs (perform .new) migrated advancingCommands).map
        (Event.cost ⟨readPolicy.fingerprint, Digest.replicate 1⟩) = [18, 0, 1] := by
  let := vectorSha2
  have hsub := advancing_policies
  have hvalid : ValidBatches .new pairConfig advancingCommands := by
    intro sample checks hcommand
    simp only [advancingCommands, List.mem_cons, List.not_mem_nil, or_false] at hcommand
    rcases hcommand with h | h | h
    · cases h
    · cases h
    · cases h
      exact ⟨by decide +kernel, by decide +kernel⟩
  have htake : ∀ k ∈ List.range 4, ∀ i, ∀ key ∈
      (Machine.final memoryPerform (BoundedShards.new pairConfig) (advancingCommands.take k) i).data.entries.keys,
      ∀ entry ∈ (Machine.final memoryPerform (BoundedShards.new pairConfig) (advancingCommands.take k) i).data.entries.lookup key,
        entry.expiresAtMillis ≤ i64Max := by
    decide +kernel
  have hexpiries : ExpiriesFit (BoundedShards.new pairConfig) advancingCommands := by
    intro before after hsplit i key entry hentry
    have hbefore : before = advancingCommands.take before.length := by rw [hsplit, List.take_left]
    have hlength : before.length < 4 := by
      have hle := congrArg List.length hsplit
      rw [List.length_append] at hle
      have hthree : advancingCommands.length = 3 := rfl
      omega
    rw [hbefore] at hentry
    exact htake before.length (List.mem_range.2 hlength) i key (Finmap.mem_keys_iff.2 ⟨entry, hentry⟩) entry hentry
  exact ⟨gcra_backends_agree .new pairConfig advancingCommands (vector_gcra_injOn.mono (Set.image_mono hsub))
    (by decide) (by decide) hvalid hexpiries (by decide +kernel) (by decide +kernel), by decide +kernel⟩

end PgGcra

end Runlimit
