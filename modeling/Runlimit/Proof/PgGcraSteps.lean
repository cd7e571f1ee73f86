import Runlimit.Proof.Postgres
import Runlimit.Spec.PgGcra

/-!
# What a command of the durable GCRA limiter does

`tryAdmit_cases` says once what an admission can do: it commits nothing, or it commits the evaluated
row of every check and its time on every shard it locked (`Committed`). `cleanup_step` says what a
cleanup can do: it raises the times of some shards and deletes rows that have expired there
(`Cleaned`).
-/

namespace Runlimit

namespace PgGcra

variable {tables tables' : GcraTables}

/-- The time of a key's shard. -/
def observed (tables : GcraTables) (key : CounterKey) : ℕ := (tables.shards (capacityShard key)).observedAtMs

/-! ## The statements of an admission -/

section Admission

variable [Sha2] {checks : List (Check GcraPolicy)} {config : PostgresConfig} {sample : ℕ}

/-- A batch locks the shards of its keys. -/
theorem mem_lockedShards {shard : CapacityShard} :
    shard ∈ lockedShards checks ↔ ∃ c ∈ checks, capacityShard c.counterKey = shard := by
  unfold lockedShards
  rw [List.mem_dedup, List.mem_insertionSort, List.mem_map]

/-- Time does not run backwards on a locked shard. -/
theorem observed_le_clampedMs {shard : CapacityShard} (h : shard ∈ lockedShards checks) :
    (tables.shards shard).observedAtMs ≤ clampedMs tables checks sample := by
  have hle := Finset.le_sup (f := fun shard => (tables.shards shard).observedAtMs) (List.mem_toFinset.2 h)
  unfold clampedMs
  omega

omit [Sha2] in
/-- The loop over the ledger clamps the clock. -/
theorem readLedger_ok : ∀ {shards : List CapacityShard} {now now' : ℕ}, readLedger tables shards now = .ok now' →
    now' = max now (shards.toFinset.sup fun shard => (tables.shards shard).observedAtMs) := by
  intro shards
  induction shards with
  | nil =>
    intro now now' h
    cases h
    simp
  | cons shard rest ih =>
    intro now now' h
    unfold readLedger at h
    split at h
    · cases h
    · rw [ih h, List.toFinset_cons, Finset.sup_insert]
      have hassoc := max_assoc now (tables.shards shard).observedAtMs
        (rest.toFinset.sup fun shard => (tables.shards shard).observedAtMs)
      exact hassoc

/-- A check found quota, given the row its key has. -/
def Evaluated (now : ℕ) (tables : GcraTables) (c : Check GcraPolicy) (allowance : Gcra.PendingAllowance) : Prop :=
  Gcra.evaluate c now (activeTat now (tables.rows.lookup c.counterKey)) = .ok (.allowed allowance)

/-- A row that is read without an error is read as it is stored. -/
theorem storedCounter_ok {c : Check GcraPolicy} {row stored : Option GcraRow} (h : storedCounter c row = .ok stored) :
    stored = row := by
  unfold storedCounter at h
  split at h
  · cases h
    rfl
  · split at h
    · cases h
    · split at h
      · cases h
      · cases h
        rfl

/-- The loop ends without a denial only if every check found quota. -/
theorem evaluateFrom_allowed {maximum now : ℕ} : ∀ {inputs : List (Check GcraPolicy)} {index : ℕ}
    {counts : CapacityShard → ℕ} {denial : Option Admission} {pending result : List Gcra.PendingAllowance},
    evaluateFrom maximum now index (inputs.zip (inputs.map fun c => tables.rows.lookup c.counterKey)) counts denial
        pending = .ok (.allowed result) →
    denial = none ∧ ∃ rest, result = pending ++ rest ∧ List.Forall₂ (Evaluated now tables) inputs rest := by
  intro inputs
  induction inputs with
  | nil =>
    intro index counts denial pending result h
    unfold evaluateFrom at h
    cases denial with
    | some denial => cases h
    | none =>
      cases h
      exact ⟨rfl, [], (List.append_nil _).symm, List.Forall₂.nil⟩
  | cons c rest ih =>
    intro index counts denial pending result h
    rw [List.map_cons, List.zip_cons_cons] at h
    unfold evaluateFrom at h
    obtain ⟨stored, hstored, h⟩ := except_bind_eq_ok.1 h
    rw [storedCounter_ok hstored] at h
    cases hev : Gcra.evaluate c now (activeTat now (tables.rows.lookup c.counterKey)) with
    | error e =>
      simp only [hev] at h
      cases h
    | ok evaluation =>
      simp only [hev] at h
      cases evaluation with
      | denied quota =>
        -- the first denial is kept to the end of the loop
        obtain ⟨hdenial, -⟩ := ih h
        cases denial with
        | none => cases hdenial
        | some denial => cases hdenial
      | allowed allowance =>
        simp only at h
        split at h
        · obtain ⟨hdenial, tail, hresult, htail⟩ := ih h
          rw [List.append_assoc] at hresult
          refine ⟨?_, allowance :: tail, hresult, List.Forall₂.cons hev htail⟩
          split at hdenial
          · cases denial with
            | none => cases hdenial
            | some denial => cases hdenial
          · exact hdenial
        · obtain ⟨hdenial, tail, hresult, htail⟩ := ih h
          rw [List.append_assoc] at hresult
          exact ⟨hdenial, allowance :: tail, hresult, List.Forall₂.cons hev htail⟩

/-- The row an allowance is stored as. -/
def rowOf (allowance : Gcra.PendingAllowance) : GcraRow := ⟨allowance.tatScaled, allowance.expiresAtMillis⟩

/-- The rows of a batch. -/
def written (checks : List (Check GcraPolicy)) (allowances : List Gcra.PendingAllowance) :
    List (CounterKey × GcraRow) :=
  checks.zipWith (fun c allowance => (c.counterKey, rowOf allowance)) allowances

/-- One row for each allowance, with an expiry that `BIGINT` can hold. -/
theorem upsertRows_ok : ∀ {checks : List (Check GcraPolicy)} {allowances : List Gcra.PendingAllowance}
    {entries : List (CounterKey × GcraRow)}, upsertRows checks allowances = .ok entries →
    entries = written checks allowances ∧ ∀ entry ∈ entries, entry.2.expiresAtMs ≤ i64Max := by
  intro checks
  induction checks with
  | nil =>
    intro allowances entries h
    cases h
    exact ⟨rfl, fun _ h => by cases h⟩
  | cons c rest ih =>
    intro allowances entries h
    cases allowances with
    | nil =>
      cases h
      exact ⟨rfl, fun _ h => by cases h⟩
    | cons allowance allowances =>
      unfold upsertRows at h
      split at h
      · cases h
      · -- the check against `BIGINT` has passed
        rename_i hexpiry
        obtain ⟨tail, htail, h⟩ := except_bind_eq_ok.1 h
        cases h
        obtain ⟨rfl, hbound⟩ := ih htail
        refine ⟨rfl, ?_⟩
        rw [List.forall_mem_cons]
        exact ⟨Nat.le_of_not_lt hexpiry, hbound⟩

omit [Sha2] in
/-- The trigger counts, and leaves the time. -/
theorem upsertRow_ok {entry : CounterKey × GcraRow} (h : upsertRow tables entry = .ok tables') :
    tables'.rows = tables.rows.insert entry.1 entry.2 ∧
      ∀ shard, (tables'.shards shard).observedAtMs = (tables.shards shard).observedAtMs := by
  unfold upsertRow at h
  split at h
  · cases h
    exact ⟨rfl, fun _ => rfl⟩
  · simp only at h
    split at h
    · cases h
    · cases h
      refine ⟨rfl, ?_⟩
      intro shard
      by_cases hshard : shard = capacityShard entry.1
      · subst hshard
        simp only [Function.update_self]
      · simp only [Function.update_of_ne hshard]

omit [Sha2] in
/-- The rows of a batch are inserted one after the other, and the times of the shards stay. -/
theorem upsert_ok : ∀ {entries : List (CounterKey × GcraRow)} {tables tables' : GcraTables},
    entries.foldlM upsertRow tables = .ok tables' →
    tables'.rows = entries.foldl (fun rows entry => rows.insert entry.1 entry.2) tables.rows ∧
      ∀ shard, (tables'.shards shard).observedAtMs = (tables.shards shard).observedAtMs := by
  intro entries
  induction entries with
  | nil =>
    intro tables tables' h
    cases h
    exact ⟨rfl, fun _ => rfl⟩
  | cons entry rest ih =>
    intro tables tables' h
    rw [List.foldlM_cons] at h
    obtain ⟨middle, hmiddle, h⟩ := except_bind_eq_ok.1 h
    obtain ⟨hrows, hobserved⟩ := upsertRow_ok hmiddle
    obtain ⟨hrows', hobserved'⟩ := ih h
    rw [hrows] at hrows'
    exact ⟨hrows', fun shard => (hobserved' shard).trans (hobserved shard)⟩

/-! ## What a transaction commits -/

/-- The effect of a committed admission: every check found quota, its row is stored, and its time is
the time of every shard of the transaction. -/
structure Committed (sample : ℕ) (checks : List (Check GcraPolicy)) (allowances : List Gcra.PendingAllowance)
    (tables tables' : GcraTables) : Prop where
  evaluated : List.Forall₂ (Evaluated (clampedMs tables checks sample) tables) checks allowances
  expiries : ∀ entry ∈ written checks allowances, entry.2.expiresAtMs ≤ i64Max
  rows_eq : tables'.rows =
    (written checks allowances).foldl (fun rows entry => rows.insert entry.1 entry.2) tables.rows
  observed_eq : ∀ shard, (tables'.shards shard).observedAtMs =
    if shard ∈ lockedShards checks then clampedMs tables checks sample else (tables.shards shard).observedAtMs

/-- What the loop denies with is a denial. -/
theorem evaluateFrom_denied {maximum now : ℕ} {allowances : List Allowance} :
    ∀ {inputs : List (Check GcraPolicy × Option GcraRow)} {index : ℕ} {counts : CapacityShard → ℕ}
      {denial : Option Admission} {pending : List Gcra.PendingAllowance} {admission : Admission},
      (∀ d ∈ denial, d ≠ .allowed allowances) →
      evaluateFrom maximum now index inputs counts denial pending = .ok (.denied admission) →
      admission ≠ .allowed allowances := by
  intro inputs
  induction inputs with
  | nil =>
    intro index counts denial pending admission hdenial h
    unfold evaluateFrom at h
    cases denial with
    | some denial =>
      cases h
      exact hdenial _ rfl
    | none => cases h
  | cons input rest ih =>
    intro index counts denial pending admission hdenial h
    obtain ⟨c, row⟩ := input
    -- a denial found earlier stays the first
    have hor : ∀ d, d ≠ .allowed allowances → ∀ d' ∈ (denial <|> some d), d' ≠ .allowed allowances := by
      intro d hd d' hd'
      cases denial with
      | none =>
        cases hd'
        exact hd
      | some denial => exact hdenial d' hd'
    unfold evaluateFrom at h
    obtain ⟨stored, hstored, h⟩ := except_bind_eq_ok.1 h
    cases hev : Gcra.evaluate c now (activeTat now stored) with
    | error e =>
      simp only [hev] at h
      cases h
    | ok evaluation =>
      simp only [hev] at h
      cases evaluation with
      | denied quota => exact ih (hor _ (quotaAdmission_ne_allowed c.quotaMode index quota allowances)) h
      | allowed allowance =>
        simp only at h
        split at h
        · refine ih ?_ h
          split
          · exact hor _ (fun h => by cases h)
          · exact hdenial
        · exact ih hdenial h

/-- A transaction fails, is denied, or commits. -/
theorem transact_cases {D : Type} {build : Admission → Except PgCheckError D} {decision : D}
    {committed : Option GcraTables} (h : transact config sample checks build tables = .ok (decision, committed)) :
    (committed = none ∧ ∃ admission, build admission = .ok decision ∧ ∀ allowances, admission ≠ .allowed allowances) ∨
      ∃ tables' allowances, committed = some tables' ∧ Committed sample checks allowances tables tables' ∧
        build (.allowed (allowances.map (·.allowance))) = .ok decision := by
  unfold transact at h
  obtain ⟨now, hnow, h⟩ := except_bind_eq_ok.1 h
  obtain ⟨pending, hpending, h⟩ := except_bind_eq_ok.1 h
  -- the time of the transaction is the clock, raised to the latest shard
  have hclamped : now = clampedMs tables checks sample := readLedger_ok hnow
  subst hclamped
  unfold evaluate at hpending
  cases pending with
  | denied admission =>
    obtain ⟨built, hbuilt, h⟩ := except_bind_eq_ok.1 h
    cases h
    refine Or.inl ⟨rfl, admission, hbuilt, ?_⟩
    intro allowances
    exact evaluateFrom_denied (fun d hd => by cases hd) hpending
  | allowed allowances =>
    obtain ⟨entries, hentries, h⟩ := except_bind_eq_ok.1 h
    obtain ⟨built, hbuilt, h⟩ := except_bind_eq_ok.1 h
    obtain ⟨middle, hmiddle, h⟩ := except_bind_eq_ok.1 h
    split at h
    · cases h
    · cases h
      obtain ⟨-, rest, hrest, hevaluated⟩ := evaluateFrom_allowed hpending
      rw [List.nil_append] at hrest
      subst hrest
      obtain ⟨rfl, hbound⟩ := upsertRows_ok hentries
      obtain ⟨hrows, hobserved⟩ := upsert_ok hmiddle
      -- `observed_at_ms` is written last, for the locked shards only
      refine Or.inr ⟨_, allowances, rfl, ⟨hevaluated, hbound, hrows, ?_⟩, hbuilt⟩
      intro shard
      unfold setObserved
      simp only
      split
      · rfl
      · exact hobserved shard

/-- **An admission commits nothing, or the row of every check.** -/
theorem tryAdmit_cases (config : PostgresConfig) (sample : ℕ) (request : Request GcraPolicy) (tables : GcraTables) :
    ((tryAdmit config sample request tables).2 = tables ∧
      (tryAdmit config sample request tables).1.allowed = false) ∨
    ∃ allowances, Committed sample request.checks allowances tables (tryAdmit config sample request tables).2 ∧
      (tryAdmit config sample request tables).1.allowed = true ∧
      (request.checks.map Check.counterKey).Nodup := by
  cases request with
  | check c =>
    unfold tryAdmit check runTransaction Request.checks
    simp only
    cases htransact : transact config sample [c] singleDecision tables with
    | error e => exact Or.inl ⟨rfl, rfl⟩
    | ok result =>
      obtain ⟨decision, committed⟩ := result
      rcases transact_cases htransact with ⟨rfl, admission, hbuild, hdenied⟩ | ⟨tables', allowances, rfl, hcommitted, hbuild⟩
      · -- a decision built from a denial does not allow
        have hne := singleDecision_denied hbuild hdenied
        refine Or.inl ⟨rfl, ?_⟩
        cases decision with
        | allowed allowance => exact absurd rfl (hne allowance)
        | denied denial => rfl
        | shadowDenied denial => rfl
      · obtain ⟨allowance, -, rfl⟩ := singleDecision_allowed hbuild
        exact Or.inr ⟨allowances, hcommitted, rfl, List.nodup_singleton _⟩
  | checkAll checks =>
    unfold tryAdmit checkAll runTransaction Request.checks
    simp only
    cases hvalid : validateBatch checks config.maxBatchSize with
    | error e => exact Or.inl ⟨rfl, rfl⟩
    | ok u =>
      simp only
      cases htransact : transact config sample checks (batchDecision checks.length) tables with
      | error e => exact Or.inl ⟨rfl, rfl⟩
      | ok result =>
        obtain ⟨decision, committed⟩ := result
        rcases transact_cases htransact with ⟨rfl, admission, hbuild, hdenied⟩ | ⟨tables', allowances, rfl, hcommitted, hbuild⟩
        · have hne := batchDecision_denied hbuild hdenied
          refine Or.inl ⟨rfl, ?_⟩
          obtain ⟨outcome⟩ := decision
          cases outcome with
          | allowed allowances => exact absurd rfl (hne allowances)
          | denied index size denial => rfl
          | shadowDenied index size denial => rfl
        · rw [batchDecision_allowed hbuild]
          exact Or.inr ⟨allowances, hcommitted, rfl, (validateBatch_ok hvalid).2⟩

end Admission

/-! ## Cleanup -/

/-- The effect of a cleanup: times move on, and rows that have expired on their shard may be gone. -/
structure Cleaned (tables tables' : GcraTables) : Prop where
  observed_le : ∀ shard, (tables.shards shard).observedAtMs ≤ (tables'.shards shard).observedAtMs
  lookup : ∀ key, tables'.rows.lookup key = tables.rows.lookup key ∨
    (tables'.rows.lookup key = none ∧ ∃ row, tables.rows.lookup key = some row ∧
      row.expiresAtMs ≤ observed tables' key)

/-- The running maximum is the least bound. -/
theorem foldl_max_eq (l : List ℕ) : ∀ start : ℕ, (∀ n ∈ l, n ≤ l.foldl max start) ∧ start ≤ l.foldl max start ∧
    ∀ bound, start ≤ bound → (∀ n ∈ l, n ≤ bound) → l.foldl max start ≤ bound := by
  induction l with
  | nil =>
    intro start
    exact ⟨fun n h => absurd h List.not_mem_nil, le_rfl, fun bound h _ => h⟩
  | cons m rest ih =>
    intro start
    obtain ⟨hmem, hstart, hbound⟩ := ih (max start m)
    rw [List.foldl_cons]
    refine ⟨?_, by omega, ?_⟩
    · rw [List.forall_mem_cons]
      exact ⟨by omega, hmem⟩
    · intro bound hs hn
      rw [List.forall_mem_cons] at hn
      exact hbound bound (by omega) hn.2

/-- Time moves on for the locked shards only, and not beyond the clock and the other shards. -/
theorem cleanupAdvanceTime_observed (sample : ℕ) (shards : List CapacityShard) (tables : GcraTables) :
    (∀ shard, (tables.shards shard).observedAtMs ≤
        ((cleanupAdvanceTime sample shards tables).shards shard).observedAtMs) ∧
      ∀ bound, sample ≤ bound → (∀ shard, (tables.shards shard).observedAtMs ≤ bound) →
        ∀ shard, ((cleanupAdvanceTime sample shards tables).shards shard).observedAtMs ≤ bound := by
  obtain ⟨hmem, -, hbound⟩ := foldl_max_eq (shards.map fun shard => (tables.shards shard).observedAtMs) 0
  unfold cleanupAdvanceTime setObserved
  refine ⟨?_, ?_⟩
  · intro shard
    by_cases hshard : shard ∈ shards
    · -- the new time of a locked shard is at least its old one
      have hle := hmem _ (List.mem_map_of_mem hshard)
      simp only [if_pos hshard]
      omega
    · simp only [if_neg hshard]
      exact le_rfl
  · intro bound hsample hobserved shard
    have hle := hbound bound (Nat.zero_le _) (by
      intro n hn
      obtain ⟨shard, -, rfl⟩ := List.mem_map.1 hn
      exact hobserved shard)
    by_cases hshard : shard ∈ shards
    · simp only [if_pos hshard]
      omega
    · simp only [if_neg hshard]
      exact hobserved shard

/-- Expired is judged by the time of the shard. -/
theorem expiredIn_iff {shard : CapacityShard} {key : CounterKey} :
    expiredIn tables shard key = true ↔ ∃ row, tables.rows.lookup key = some row ∧ capacityShard key = shard ∧
      row.expiresAtMs ≤ (tables.shards shard).observedAtMs := by
  unfold expiredIn
  cases tables.rows.lookup key with
  | none => simp
  | some row => simp

/-- Only expired rows of locked shards are selected. -/
theorem mem_cleanupSelect {run : CleanupRun} {shards : List CapacityShard} {key : CounterKey}
    (h : key ∈ cleanupSelect run shards tables) :
    ∃ row, tables.rows.lookup key = some row ∧ row.expiresAtMs ≤ observed tables key := by
  unfold cleanupSelect earliest at h
  have hkey := (List.mem_insertionSort _).1 (List.mem_of_mem_take h)
  obtain ⟨shard, -, hkey⟩ := List.mem_flatMap.1 hkey
  have hexpired := (List.mem_insertionSort _).1 (List.mem_of_mem_take hkey)
  obtain ⟨row, hrow, rfl, hexpires⟩ := expiredIn_iff.1 (List.mem_filter.1 hexpired).2
  exact ⟨row, hrow, hexpires⟩

/-- A deleted row is gone, and the time of its shard stays. -/
theorem deleteRow_ok {key : CounterKey} (h : deleteRow tables key = .ok tables') :
    (∀ k, tables'.rows.lookup k = if k = key then none else tables.rows.lookup k) ∧
      ∀ shard, (tables'.shards shard).observedAtMs = (tables.shards shard).observedAtMs := by
  unfold deleteRow at h
  split at h
  · rename_i hnone
    cases h
    refine ⟨?_, fun _ => rfl⟩
    intro k
    split
    · rename_i hk
      rw [hk, hnone]
    · rfl
  · simp only at h
    split at h
    · cases h
    · cases h
      refine ⟨fun k => Finmap.lookup_erase_if _ _ _, ?_⟩
      intro shard
      by_cases hshard : shard = capacityShard key
      · subst hshard
        simp only [Function.update_self]
      · simp only [Function.update_of_ne hshard]

/-- Rows are deleted one after the other. -/
theorem delete_ok : ∀ {keys : List CounterKey} {tables tables' : GcraTables}, keys.foldlM deleteRow tables = .ok tables' →
    (∀ k, tables'.rows.lookup k = if k ∈ keys then none else tables.rows.lookup k) ∧
      ∀ shard, (tables'.shards shard).observedAtMs = (tables.shards shard).observedAtMs := by
  intro keys
  induction keys with
  | nil =>
    intro tables tables' h
    cases h
    exact ⟨fun k => by rw [if_neg List.not_mem_nil], fun _ => rfl⟩
  | cons key rest ih =>
    intro tables tables' h
    rw [List.foldlM_cons] at h
    obtain ⟨middle, hmiddle, h⟩ := except_bind_eq_ok.1 h
    obtain ⟨hlookup, hobserved⟩ := deleteRow_ok hmiddle
    obtain ⟨hlookup', hobserved'⟩ := ih h
    refine ⟨?_, fun shard => (hobserved' shard).trans (hobserved shard)⟩
    intro k
    rw [hlookup', hlookup]
    by_cases hk : k = key
    · simp only [hk, if_true, ite_self, List.mem_cons, true_or]
    · simp only [List.mem_cons, hk, false_or, if_false]

/-- **A cleanup raises times and deletes what has expired.** -/
theorem cleanup_step (run : CleanupRun) (tables : GcraTables) :
    Cleaned tables (cleanupExpired run tables).2 ∧
      ∀ bound, run.advanceSample ≤ bound → (∀ shard, (tables.shards shard).observedAtMs ≤ bound) →
        ∀ shard, ((cleanupExpired run tables).2.shards shard).observedAtMs ≤ bound := by
  have hrefl : Cleaned tables tables := ⟨fun _ => le_rfl, fun _ => Or.inl rfl⟩
  unfold cleanupExpired
  split
  · exact ⟨hrefl, fun bound _ h => h⟩
  · cases htransaction : cleanupTransaction run tables with
    | error e => exact ⟨hrefl, fun bound _ h => h⟩
    | ok result =>
      obtain ⟨removed, tables'⟩ := result
      unfold cleanupTransaction at htransaction
      obtain ⟨final, hfinal, h⟩ := except_bind_eq_ok.1 htransaction
      cases h
      obtain ⟨hlookup, hobserved⟩ := delete_ok hfinal
      obtain ⟨hadvance, hbound⟩ := cleanupAdvanceTime_observed run.advanceSample (cleanupLocks run tables) tables
      refine ⟨⟨?_, ?_⟩, ?_⟩
      · intro shard
        rw [hobserved]
        exact hadvance shard
      · intro key
        rw [hlookup]
        split
        · rename_i hkey
          -- what is deleted was selected, as expired at the time just written
          obtain ⟨row, hrow, hexpires⟩ := mem_cleanupSelect hkey
          refine Or.inr ⟨rfl, row, hrow, ?_⟩
          unfold observed at *
          rw [hobserved]
          exact hexpires
        · exact Or.inl rfl
      · intro bound hsample h shard
        rw [hobserved]
        exact hbound bound hsample h shard

end PgGcra

end Runlimit
