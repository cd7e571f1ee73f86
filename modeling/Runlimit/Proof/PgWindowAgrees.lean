import Runlimit.Proof.BatchChecks
import Runlimit.Proof.Durable
import Runlimit.Proof.PgWindowScan

/-!
# The durable windows and the memory store agree

At whole milliseconds a row of `runlimit_fixed_windows` is an entry of the memory store, and the scan
of a batch (`Proof.PgWindowScan`) is the scan of the reference store but for the capacity of its shards
(`firstDenial_verdicts`). The two stores agree on the live entries (`Coupled`), which is kept by a
committed batch, by a denial, and by a cleanup at any microsecond.
-/

namespace Runlimit

open Durable (live firstDenial)

namespace PgWindows

/-! ## Milliseconds -/

/-- All samples of an admission in one whole millisecond. -/
def Samples.atMillis (millis : ℕ) : Samples := ⟨1000 * millis, 1000 * millis, 1000 * millis⟩

/-- Whole milliseconds are the same duration in either unit. -/
theorem ofMicros_millis (millis : ℕ) : Duration.ofMicros (1000 * millis) = Duration.fromMillis millis := by
  unfold Duration.ofMicros Duration.fromMillis
  refine Duration.ext ?_
  have hmul : 1000 * millis * 10 ^ 3 = millis * 10 ^ 6 := by ring
  simp only [hmul]

theorem authoritativeElapsed_self (time : ℕ) : authoritativeElapsed time time = Duration.zero := by
  unfold authoritativeElapsed Duration.ofMicros Duration.zero
  refine Duration.ext ?_
  simp only [Nat.sub_self, Nat.zero_mul, Nat.zero_min]

theorem saturatingSub_zero (d : Duration) : d.saturatingSub Duration.zero = d := Duration.ext rfl

/-- An answer that takes no time is not shortened. -/
theorem finish_zero (pending : PendingAllowance) : pending.finish Duration.zero = pending.allowance := by
  unfold PendingAllowance.finish
  rw [saturatingSub_zero]

/-! ## The rows as entries -/

variable {tables tables' : WindowTables} {key : CounterKey} {millis : ℕ}

/-- A row, as an entry of the memory store. -/
def asEntry (row : WindowRow) : StoredEntry WindowEntry := ⟨⟨row.used⟩, row.expiresAt / 1000⟩

/-- What the tables store for a key. -/
def storedRow (tables : WindowTables) (key : CounterKey) : Option (StoredEntry WindowEntry) :=
  (tables.rows.lookup key).map asEntry

/-- Every window closes at a whole millisecond. -/
def Aligned (tables : WindowTables) : Prop := ∀ key row, tables.rows.lookup key = some row → 1000 ∣ row.expiresAt

/-- An aligned row expires in the same instant in either unit. -/
theorem Aligned.live_iff (h : Aligned tables) {row : WindowRow} (hrow : tables.rows.lookup key = some row) :
    millis < (asEntry row).expiresAtMillis ↔ 1000 * millis < row.expiresAt := by
  have hdvd := h key row hrow
  unfold asEntry
  simp only
  omega

theorem live_storedRow_none (hrow : tables.rows.lookup key = none) : live (storedRow tables) millis key = none := by
  unfold live storedRow
  rw [hrow]
  rfl

theorem Aligned.live_storedRow (h : Aligned tables) {row : WindowRow} (hrow : tables.rows.lookup key = some row) :
    live (storedRow tables) millis key = if 1000 * millis < row.expiresAt then some (asEntry row) else none := by
  unfold live storedRow
  rw [hrow, Option.map_some, Option.filter_some]
  simp only [decide_eq_true_eq, h.live_iff hrow]

/-! ## Verdicts -/

section Verdicts

variable [Sha2] {c : Check FixedWindowPolicy}

/-- The verdict on an input. -/
def verdictOf (tables : WindowTables) (millis : ℕ) (c : Check FixedWindowPolicy) : Verdict WindowEntry :=
  fixedWindowVerdict c millis (live (storedRow tables) millis c.counterKey)

/-- An input without quota is denied by the reference algorithm, with the same retry. -/
theorem Aligned.verdict_spent (h : Aligned tables) {denial : PendingDenial}
    (hspent : spent tables (1000 * millis) c = some denial) :
    ∃ quota, denial = .quota quota ∧ verdictOf tables millis c = .denied (quota.finish Duration.zero) := by
  have hcost := cost_le_limit c
  unfold spent at hspent
  cases hrow : tables.rows.lookup c.counterKey with
  | none =>
    rw [hrow] at hspent
    cases hspent
  | some row =>
    simp only [hrow] at hspent
    split at hspent
    · rename_i hrefused
      rw [Option.some.injEq] at hspent
      subst hspent
      refine ⟨_, rfl, ?_⟩
      have hdvd := h _ row hrow
      have hretry : row.expiresAt - 1000 * millis = 1000 * (row.expiresAt / 1000 - millis) := by omega
      unfold verdictOf
      rw [h.live_storedRow hrow, if_pos hrefused.1]
      unfold fixedWindowVerdict asEntry PendingQuotaDenial.finish
      simp only
      rw [if_pos (by omega), saturatingSub_zero, hretry, ofMicros_millis]
    · cases hspent

/-- An input with quota is granted the same allowance, and leaves the same entry. -/
theorem Aligned.verdict_granted (h : Aligned tables) (hspent : spent tables (1000 * millis) c = none) :
    verdictOf tables millis c = .allowed (asEntry (consumedRow tables (1000 * millis) c))
      (granted tables (1000 * millis) c).allowance := by
  have hcost := cost_le_limit c
  -- a window that starts now, with no row or an expired one
  have hfresh : consumedRow tables (1000 * millis) c = ⟨1000 * millis, 1000 * millis + windowMicros c, c.cost⟩ →
      live (storedRow tables) millis c.counterKey = none →
      verdictOf tables millis c = .allowed (asEntry (consumedRow tables (1000 * millis) c))
        (granted tables (1000 * millis) c).allowance := by
    intro hrow hlive
    have hexpires : (1000 * millis + 1000 * c.policy.window.millis) / 1000 = millis + c.policy.window.millis := by omega
    have hretry : 1000 * millis + 1000 * c.policy.window.millis - 1000 * millis = 1000 * c.policy.window.millis := by omega
    unfold verdictOf granted
    rw [hlive]
    simp only [hrow]
    unfold fixedWindowVerdict asEntry windowMicros
    simp only [hexpires, hretry, ofMicros_millis]
  cases hrow : tables.rows.lookup c.counterKey with
  | none =>
    refine hfresh ?_ (live_storedRow_none hrow)
    unfold consumedRow
    rw [hrow]
    rfl
  | some row =>
    by_cases hactive : 1000 * millis < row.expiresAt
    · have hconsumed : consumedRow tables (1000 * millis) c = { row with used := row.used + c.cost } := by
        unfold consumedRow consumed
        rw [hrow]
        simp only
        rw [if_neg (by omega)]
      -- the cost fits, since the quota is not spent
      have hroom : ¬c.policy.limit.get - c.cost < row.used := by
        intro hused
        unfold spent at hspent
        simp only [hrow] at hspent
        rw [if_pos ⟨hactive, hused⟩] at hspent
        cases hspent
      have hdvd := h _ row hrow
      have hretry : row.expiresAt - 1000 * millis = 1000 * (row.expiresAt / 1000 - millis) := by omega
      unfold verdictOf granted
      rw [h.live_storedRow hrow, if_pos hactive]
      simp only [hconsumed]
      unfold fixedWindowVerdict asEntry
      simp only
      rw [if_neg (by omega)]
      simp only [hretry, ofMicros_millis]
    · refine hfresh ?_ ?_
      · unfold consumedRow consumed
        rw [hrow]
        simp only
        rw [if_pos (by omega)]
      · rw [h.live_storedRow hrow, if_neg hactive]

end Verdicts

/-! ## The scans -/

section Scans

variable [Sha2] {config : PostgresConfig} {checks : List (Check FixedWindowPolicy)}

/-- Fixed windows are evaluated without overflow. -/
theorem evaluateAll_eq (tables : WindowTables) (millis : ℕ) (checks : List (Check FixedWindowPolicy)) :
    evaluateAll fixedWindow millis (fun c => live (storedRow tables) millis c.counterKey) checks =
      .ok (checks.map fun c => (c, verdictOf tables millis c)) := by
  unfold evaluateAll
  refine mapM_ok ?_
  intro c _
  rfl

/-- **The scan of the durable windows is the scan of the reference store**, but for its shards. -/
theorem Aligned.firstDenial_verdicts (h : Aligned tables) {maximum : ℕ} {mode : QuotaMode} :
    ∀ {rest before : List (Check FixedWindowPolicy)}, (∀ c ∈ rest, c.quotaMode = mode) →
    firstDenial maximum (fun key => (storedRow tables key).isNone) before.length
        (fun shard => tables.rowCounts shard + rowless tables before shard)
        (rest.map fun c => (c, verdictOf tables millis c)) =
      (firstWhere (refusal tables maximum (1000 * millis)) before rest).map fun p =>
        deniedAdmission mode p.1 Duration.zero p.2 := by
  intro rest
  induction rest with
  | nil => exact fun _ => rfl
  | cons c rest ih =>
    intro before hmodes
    rw [List.forall_mem_cons] at hmodes
    have hrest := @ih (before ++ [c]) hmodes.2
    rw [List.length_append, List.length_singleton] at hrest
    rw [List.map_cons]
    unfold firstWhere
    rw [show refusal tables maximum (1000 * millis) before c =
      (spent tables (1000 * millis) c <|> full tables maximum before c) from rfl]
    cases hspent : spent tables (1000 * millis) c with
    | some denial =>
      obtain ⟨quota, rfl, hverdict⟩ := h.verdict_spent hspent
      rw [hverdict]
      unfold firstDenial
      rw [hmodes.1]
      rfl
    | none =>
      -- the quota is not spent, so the check is counted if it has no row
      rw [h.verdict_granted hspent]
      have hnone : (none <|> full tables maximum before c) = full tables maximum before c := by
        cases full tables maximum before c with
        | none => rfl
        | some denial => rfl
      rw [hnone]
      unfold firstDenial full
      cases hrow : tables.rows.lookup c.counterKey with
      | some row =>
        rw [rowless_snoc_some hrow] at hrest
        have hstored : (storedRow tables c.counterKey).isNone = false := by
          unfold storedRow
          rw [hrow]
          rfl
        simp only [hstored, Bool.false_eq_true, if_false, reduceCtorEq, false_and]
        exact hrest
      | none =>
        rw [rowless_snoc_none hrow] at hrest
        have hstored : (storedRow tables c.counterKey).isNone = true := by
          unfold storedRow
          rw [hrow]
          rfl
        simp only [hstored, if_true, true_and]
        by_cases hfull : maximum < tables.rowCounts (capacityShard c.counterKey) +
            rowless tables before (capacityShard c.counterKey) + 1
        · rw [if_pos (by omega), if_pos hfull]
          rfl
        · rw [if_neg (by omega), if_neg hfull]
          simp only
          rw [← hrest]
          congr 1
          funext shard
          by_cases hshard : shard = capacityShard c.counterKey
          · subst hshard
            rw [Function.update_self, Function.update_self]
            omega
          · rw [Function.update_of_ne hshard, Function.update_of_ne hshard]

/-- What a batch comes to on these tables. -/
def outcome (config : PostgresConfig) (millis : ℕ) (checks : List (Check FixedWindowPolicy)) (tables : WindowTables) :
    Durable.Outcome FixedWindowPolicy WindowEntry :=
  Durable.evaluate fixedWindow config.maximumRowsPerShard millis (storedRow tables) tables.rowCounts checks

/-- The outcome of the one scan is what the first refused check says, if there is one. -/
theorem Aligned.outcome_eq (h : Aligned tables) (hmodes : ∀ c ∈ checks, c.quotaMode = firstQuotaMode checks) :
    outcome config millis checks tables =
      match firstRefused config tables (1000 * millis) checks with
      | some (index, denial) => .denied (deniedAdmission (firstQuotaMode checks) index Duration.zero denial)
      | none => .allowed (checks.map fun c => (c, verdictOf tables millis c)) := by
  have hscan := @Aligned.firstDenial_verdicts tables millis _ h config.maximumRowsPerShard _ checks [] hmodes
  have hcounts : (fun shard => tables.rowCounts shard + rowless tables [] shard) = tables.rowCounts := rfl
  rw [hcounts, List.length_nil] at hscan
  unfold outcome Durable.evaluate firstRefused
  rw [evaluateAll_eq]
  simp only [hscan]
  cases firstWhere (refusal tables config.maximumRowsPerShard (1000 * millis)) [] checks with
  | none => rfl
  | some found => rfl

/-- The allowances that the memory store would give are those of the rows that are written. -/
theorem Aligned.allowances_verdicts (h : Aligned tables) (hspent : ∀ c ∈ checks, spent tables (1000 * millis) c = none) :
    allowances (checks.map fun c => (c, verdictOf tables millis c)) =
      (checks.map (granted tables (1000 * millis))).map (·.finish Duration.zero) := by
  unfold allowances
  rw [List.filterMap_map, List.map_map, ← List.filterMap_eq_map]
  refine List.filterMap_congr ?_
  intro c hc
  simp only [Function.comp_apply, h.verdict_granted (hspent c hc), finish_zero]

/-- **A transaction at a whole millisecond**, without time between its sample and its response. -/
theorem Aligned.transact_eq (h : Aligned tables) (hne : checks ≠ [])
    (hmodes : ∀ c ∈ checks, c.quotaMode = firstQuotaMode checks) {D : Type} {build : Admission → Except PgCheckError D} :
    transact config (.atMillis millis) checks build tables = do
      let decision ← Durable.decided build (outcome config millis checks tables)
      return (decision, match firstRefused config tables (1000 * millis) checks with
        | some _ => none
        | none => some (consumedTables tables (1000 * millis) checks)) := by
  have helapsed := authoritativeElapsed_self (1000 * millis)
  rw [h.outcome_eq hmodes]
  unfold transact
  cases hfirst : firstRefused config tables (1000 * millis) checks with
  | some found =>
    obtain ⟨index, denial⟩ := found
    rw [@executeBatch_denied _ tables checks config (.atMillis millis) _ _ hfirst]
    -- the samples are equal, so that no answer is shortened
    have hsame : authoritativeElapsed (Samples.atMillis millis).databaseNow (Samples.atMillis millis).preflightResponse =
        Duration.zero := helapsed
    simp only [except_ok_bind, hsame]
    rfl
  | none =>
    rw [@executeBatch_allowed _ tables checks config (.atMillis millis) hne hfirst]
    have hsame : authoritativeElapsed (Samples.atMillis millis).databaseNow (Samples.atMillis millis).upsertResponse =
        Duration.zero := helapsed
    have hallowances : allowances (checks.map fun c => (c, verdictOf tables millis c)) =
        (checks.map (granted tables (1000 * millis))).map (·.finish Duration.zero) :=
      h.allowances_verdicts (firstRefused_none hfirst).2.2
    simp only [except_ok_bind, hsame]
    unfold Durable.decided admissionOf
    simp only [hallowances]
    refine bind_congr ?_
    intro decision
    rw [← consumedWrites_apply]
    rfl

end Scans

/-! ## The coupling -/

section Coupling

variable {memory : MemoryStoreConfig} {store : RefStore memory WindowEntry} {micros : ℕ}

/-- From this time on, the tables and the reference store stand for the same live entries. -/
structure Coupled (micros : ℕ) (tables : WindowTables) (store : RefStore memory WindowEntry) : Prop where
  aligned : Aligned tables
  reference_le : ∀ i, 1000 * (store i).observedMillis ≤ micros
  live : ∀ millis, micros ≤ 1000 * millis → ∀ key,
    live (storedRow tables) millis key = live (Durable.entryOf store) millis key

theorem Coupled.new : Coupled 0 migrated (RefStore.new memory) where
  aligned key row h := by simp [migrated] at h
  reference_le _ := le_rfl
  live millis _ key := by simp [Durable.live, storedRow, Durable.entryOf, migrated, RefStore.new, RefShard.new]

/-- Whole milliseconds are where the two stores can be compared. -/
theorem Coupled.of_live (haligned : Aligned tables) (hobserved : ∀ i, (store i).observedMillis ≤ millis)
    (h : ∀ key, Durable.live (storedRow tables) millis key = Durable.live (Durable.entryOf store) millis key) :
    Coupled (1000 * millis) tables store where
  aligned := haligned
  reference_le i := Nat.mul_le_mul_left _ (hobserved i)
  live millis' hle key := by
    have hmillis : millis ≤ millis' := by omega
    exact Durable.live_mono h hmillis key

/-- No shard of the memory store is ahead of the database clock. -/
theorem Coupled.observed_le (h : Coupled micros tables store) (hle : micros ≤ 1000 * millis) (i : Fin memory.shardCount) :
    (store i).observedMillis ≤ millis := by
  have hobserved := h.reference_le i
  omega

/-- A denial lets time pass on the reference store only. -/
theorem Coupled.denied (h : Coupled micros tables store) (hle : micros ≤ 1000 * millis)
    (shards : Finset (Fin memory.shardCount)) : Coupled (1000 * millis) tables (store.advance shards millis) := by
  refine Coupled.of_live h.aligned ?_ ?_
  · intro i
    unfold RefStore.advance
    split
    · exact le_rfl
    · exact h.observed_le hle i
  · intro key
    rw [Durable.live_advance]
    exact h.live millis hle key

variable [Sha2] {config : PostgresConfig} {checks : List (Check FixedWindowPolicy)}

/-- Consumed rows are aligned. -/
theorem Aligned.consumed (h : Aligned tables) (hnodup : (checks.map Check.counterKey).Nodup) :
    Aligned (consumedTables tables (1000 * millis) checks) := by
  obtain ⟨hmem, hother⟩ := @lookup_consumedTables _ tables checks (1000 * millis) hnodup
  have hfresh : ∀ c : Check FixedWindowPolicy, 1000 ∣ 1000 * millis + windowMicros c := fun c =>
    ⟨millis + c.policy.window.millis, by unfold windowMicros; ring⟩
  intro key row hrow
  by_cases hkey : ∃ c ∈ checks, c.counterKey = key
  · obtain ⟨c, hc, rfl⟩ := hkey
    rw [hmem c hc, Option.some.injEq] at hrow
    subst hrow
    unfold consumedRow PgWindows.consumed
    cases hstored : tables.rows.lookup c.counterKey with
    | none => exact hfresh c
    | some stored =>
      simp only
      split
      · exact hfresh c
      · exact h _ stored hstored
  · rw [hother key fun c hc heq => hkey ⟨c, hc, heq⟩] at hrow
    exact h key row hrow

/-- A committed batch leaves the same live entries in both stores. -/
theorem Coupled.committed (h : Coupled micros tables store) (hle : micros ≤ 1000 * millis)
    (hnodup : (checks.map Check.counterKey).Nodup) (hspent : ∀ c ∈ checks, spent tables (1000 * millis) c = none) :
    Coupled (1000 * millis) (consumedTables tables (1000 * millis) checks)
      ((store.advance (touched memory checks) millis).putAll (checks.map fun c => (c, verdictOf tables millis c))) := by
  obtain ⟨hmem, hother⟩ := @lookup_consumedTables _ tables checks (1000 * millis) hnodup
  refine Coupled.of_live (h.aligned.consumed hnodup) ?_ ?_
  · intro i
    rw [RefStore.observed_putAll]
    exact (h.denied hle (touched memory checks)).observed_le le_rfl i
  · refine Durable.live_putAll (h.live millis hle) ?_ hnodup ?_ ?_
    · rw [List.map_map]
      exact List.map_id checks
    · intro p hp
      obtain ⟨c, hc, rfl⟩ := List.mem_map.1 hp
      refine ⟨_, _, h.aligned.verdict_granted (hspent c hc), ?_⟩
      unfold storedRow
      rw [hmem c hc, Option.map_some]
    · intro key hkey
      unfold storedRow
      rw [hother key hkey]

omit [Sha2] in
theorem deleteRows_lookup {deleted : List CounterKey} (h : deleteRows deleted tables = .ok tables') (key : CounterKey) :
    tables'.rows.lookup key = if key ∈ deleted then none else tables.rows.lookup key := by
  unfold deleteRows at h
  obtain ⟨counts, -, hok⟩ := except_bind_eq_ok.1 h
  cases hok
  exact Finmap.lookup_foldl_erase

omit [Sha2] in
/-- What a cleanup selects has expired. -/
theorem mem_cleanupSelect {run : CleanupRun} (h : key ∈ cleanupSelect run tables) :
    ∃ row, tables.rows.lookup key = some row ∧ row.expiresAt ≤ run.sampledAt ∧ key ∉ run.locked := by
  have hmem := List.mem_of_mem_take h
  rw [List.mem_insertionSort, List.mem_filter] at hmem
  have hexpired := hmem.2
  unfold expiredAt at hexpired
  split at hexpired
  · cases hexpired
  · rename_i row hrow
    exact ⟨row, hrow, of_decide_eq_true hexpired⟩

omit [Sha2] in
/-- A cleanup leaves the row of a key, or it deletes one that has expired. -/
theorem cleanup_lookup (run : CleanupRun) (tables : WindowTables) (key : CounterKey) :
    (cleanupExpired run tables).2.rows.lookup key = tables.rows.lookup key ∨
      (cleanupExpired run tables).2.rows.lookup key = none ∧
        ∃ row, tables.rows.lookup key = some row ∧ row.expiresAt ≤ run.sampledAt := by
  unfold cleanupExpired
  split
  · exact Or.inl rfl
  · simp only
    cases hdelete : deleteRows (cleanupSelect run tables) tables with
    | error e => exact Or.inl rfl
    | ok tables' =>
      simp only
      rw [deleteRows_lookup hdelete]
      split
      · rename_i hmem
        obtain ⟨row, hrow, hexpired, -⟩ := mem_cleanupSelect hmem
        exact Or.inr ⟨rfl, row, hrow, hexpired⟩
      · exact Or.inl rfl

omit [Sha2] in
/-- A cleanup deletes nothing that is live from its time on. -/
theorem Coupled.cleanup (h : Coupled micros tables store) {run : CleanupRun} (hle : micros ≤ run.sampledAt) :
    Coupled run.sampledAt (cleanupExpired run tables).2 store where
  aligned := by
    intro key row hrow
    rcases cleanup_lookup run tables key with hsame | ⟨hnone, -⟩
    · rw [hsame] at hrow
      exact h.aligned key row hrow
    · rw [hnone] at hrow
      cases hrow
  reference_le i := (h.reference_le i).trans hle
  live := by
    intro millis hmillis key
    rw [← h.live millis (hle.trans hmillis) key]
    rcases cleanup_lookup run tables key with hsame | ⟨hnone, row, hrow, hexpired⟩
    · unfold Durable.live storedRow
      rw [hsame]
    · rw [live_storedRow_none hnone, h.aligned.live_storedRow hrow, if_neg (by omega)]

/-- **One batch in both stores.** What is settled is reported, and leaves both stores coupled. -/
theorem Coupled.settled (h : Coupled micros tables store) (hle : micros ≤ 1000 * millis) (hne : checks ≠ [])
    (hnodup : (checks.map Check.counterKey).Nodup) (hmodes : ∀ c ∈ checks, c.quotaMode = firstQuotaMode checks)
    {result : Except GcraBatchError BatchDecision × RefStore memory WindowEntry}
    (hsettled : Durable.Settled millis checks store (outcome config millis checks tables) result)
    {D : Type} {build : Admission → Except PgCheckError D} {decision : D}
    (hdecided : Durable.decided build (outcome config millis checks tables) = .ok decision) :
    ∃ tables', runChecks config (.atMillis millis) checks build tables = (.ok decision, tables') ∧
      Coupled (1000 * millis) tables' result.2 := by
  have htransact := @Aligned.transact_eq tables millis _ config checks h.aligned hne hmodes D build
  have houtcome := @Aligned.outcome_eq tables millis _ config checks h.aligned hmodes
  rw [hdecided, except_ok_bind] at htransact
  unfold runChecks
  rw [htransact]
  cases hfirst : firstRefused config tables (1000 * millis) checks with
  | some found =>
    obtain ⟨index, denial⟩ := found
    simp only [hfirst] at houtcome
    rw [houtcome] at hsettled
    refine ⟨tables, rfl, ?_⟩
    generalize deniedAdmission (firstQuotaMode checks) index Duration.zero denial = admission at hsettled
    cases hsettled with
    | denied index hindex c denial => exact h.denied hle _
  | none =>
    simp only [hfirst] at houtcome
    rw [houtcome] at hsettled
    refine ⟨consumedTables tables (1000 * millis) checks, rfl, ?_⟩
    cases hsettled with
    | allowed _ _ hallowed => exact h.committed hle hnodup (firstRefused_none hfirst).2.2

end Coupling

/-! ## Runs -/

section Actions

variable [Sha2]

/-- A request in a whole millisecond, or a cleanup of the durable store at any time. -/
inductive Action where
  | tryAdmit (millis : ℕ) (request : Request FixedWindowPolicy)
  | cleanup (run : CleanupRun)

def Action.command : Action → Command
  | .tryAdmit millis request => .tryAdmit (.atMillis millis) request
  | .cleanup run => .cleanup run

/-- When an action takes place, in microseconds. -/
def Action.micros : Action → ℕ
  | .tryAdmit millis _ => 1000 * millis
  | .cleanup run => run.sampledAt

/-- The memory store's part: it has no cleanup of its own. -/
def memoryPerform {memory : MemoryStoreConfig} (action : Action) (shards : BoundedShards memory WindowEntry) :
    Option Response × BoundedShards memory WindowEntry :=
  match action with
  | .tryAdmit millis request =>
    let (response, shards) := MemoryStore.tryAdmit (.ok (Duration.fromMillis millis)) request shards
    (some response, shards)
  | .cleanup _ => (none, shards)

end Actions

/-- The durable limiter refuses for lack of storage. -/
def Event.outOfStorage : Event → Bool
  | .admission (.check (.ok (.denied (.storageCapacity _)))) => true
  | .admission (.checkAll (.ok ⟨.denied _ _ (.storageCapacity _)⟩)) => true
  | _ => false

/-- The memory store refuses for lack of storage. -/
def responseOutOfStorage : Option Response → Bool
  | some (.check (.returned (.ok (.denied (.storageCapacity _))))) => true
  | some (.checkAll (.returned result)) => Durable.outOfStorage result
  | _ => false

/-- The same decision. -/
def Agrees : Event → Option Response → Prop
  | .admission (.check (.ok decision)), some (.check (.returned (.ok decision'))) => decision = decision'
  | .admission (.checkAll (.ok decision)), some (.checkAll (.returned (.ok decision'))) => decision = decision'
  | .cleanup _, none => True
  | _, _ => False

section Runs

variable [Sha2] {config : PostgresConfig} {memory : MemoryStoreConfig} {known : Set FixedWindowPolicy} {micros : ℕ}
  {shards : BoundedShards memory WindowEntry} {checks : List (Check FixedWindowPolicy)}

/-- The memory store answers a batch as the reference store does. -/
theorem Coupled.memory_checkAll (h : Coupled micros tables shards.abs) (hle : micros ≤ 1000 * millis)
    (hmillis : millis ≤ u64Max) (hfree : Set.InjOn Sha2.sha256 (FixedWindowPolicy.preimage '' known))
    (hs : MemoryStore.Sound known shards) (hchecks : ∀ c ∈ checks, c.policy ∈ known) :
    (MemoryStore.tryAdmit (.ok (Duration.fromMillis millis)) (.checkAll checks) shards).1 =
        .checkAll (.returned (RefStore.checkAll fixedWindow millis checks shards.abs).1) ∧
      (MemoryStore.tryAdmit (.ok (Duration.fromMillis millis)) (.checkAll checks) shards).2.abs =
        (RefStore.checkAll fixedWindow millis checks shards.abs).2 ∧
      MemoryStore.Sound known (MemoryStore.tryAdmit (.ok (Duration.fromMillis millis)) (.checkAll checks) shards).2 := by
  have hexact : (Duration.fromMillis millis).asMillis = millis := Duration.asMillis_fromMillis hmillis
  obtain ⟨hanswer, hsound⟩ := MemoryStore.tryAdmit_refines hfree (Duration.fromMillis millis) (.checkAll checks) shards
    hchecks hs
  rw [RefStore.answer_checkAll (fun i _ => by rw [hexact]; exact h.observed_le hle i), hexact, Prod.mk.injEq] at hanswer
  exact ⟨hanswer.1.symm, hanswer.2.symm, hsound⟩

/-- Fixed windows do not overflow. -/
theorem outcome_ne_overflow (tables : WindowTables) : outcome config millis checks tables ≠ .overflow := by
  unfold outcome Durable.evaluate
  rw [evaluateAll_eq]
  simp only
  split
  · exact fun h => by cases h
  · exact fun h => by cases h

/-- A denial is reported, and changes nothing. -/
theorem Aligned.runChecks_denied (h : Aligned tables) (hne : checks ≠ [])
    (hmodes : ∀ c ∈ checks, c.quotaMode = firstQuotaMode checks) {admission : Admission}
    (houtcome : outcome config millis checks tables = .denied admission) {D : Type}
    {build : Admission → Except PgCheckError D} :
    (runChecks config (.atMillis millis) checks build tables).1 = build admission := by
  unfold runChecks
  rw [h.transact_eq hne hmodes, houtcome]
  unfold Durable.decided
  simp only
  cases build admission with
  | error e => rfl
  | ok decision =>
    cases firstRefused config tables (1000 * millis) checks with
    | some found => rfl
    | none => rfl

/-- A valid batch has one mode. -/
theorem firstQuotaMode_eq {maximum : ℕ} (h : validateBatch checks maximum = .ok ()) :
    ∀ c ∈ checks, c.quotaMode = firstQuotaMode checks := by
  cases checks with
  | nil => exact fun c hc => absurd hc List.not_mem_nil
  | cons first rest => exact validateBatch_mode h

/-- **One batch.** -/
theorem Coupled.batch_agrees (h : Coupled micros tables shards.abs) (hle : micros ≤ 1000 * millis)
    (hmillis : millis ≤ u64Max) (hfree : Set.InjOn Sha2.sha256 (FixedWindowPolicy.preimage '' known))
    (hs : MemoryStore.Sound known shards) (hchecks : ∀ c ∈ checks, c.policy ∈ known)
    (hvalid : validateBatch checks config.maxBatchSize = .ok ())
    (hvalid' : validateBatch checks memory.maxBatchSize = .ok ())
    (hdurable : (perform config (.tryAdmit (.atMillis millis) (.checkAll checks)) tables).1.outOfStorage = false)
    (hmemory : responseOutOfStorage (memoryPerform (.tryAdmit millis (.checkAll checks)) shards).1 = false) :
    Agrees (perform config (.tryAdmit (.atMillis millis) (.checkAll checks)) tables).1
        (memoryPerform (.tryAdmit millis (.checkAll checks)) shards).1 ∧
      Coupled (1000 * millis) (perform config (.tryAdmit (.atMillis millis) (.checkAll checks)) tables).2
        (memoryPerform (.tryAdmit millis (.checkAll checks)) shards).2.abs ∧
      MemoryStore.Sound known (memoryPerform (.tryAdmit millis (.checkAll checks)) shards).2 := by
  obtain ⟨hresponse, hstore, hsound⟩ := h.memory_checkAll hle hmillis hfree hs hchecks
  obtain ⟨hne, hnodup⟩ := validateBatch_ok hvalid
  have hmodes := firstQuotaMode_eq hvalid
  have hcompared : Durable.Compared millis checks shards.abs (outcome config millis checks tables)
      (RefStore.checkAll fixedWindow millis checks shards.abs) := Durable.compared (h.live millis hle) hvalid'
  unfold memoryPerform at hmemory ⊢
  unfold perform tryAdmit PgWindows.checkAll at hdurable ⊢
  simp only [hvalid] at hdurable ⊢
  simp only [hresponse, hstore] at hmemory ⊢
  -- a storage denial of the durable store is excluded, and with it one of the memory store
  have hsettled := hcompared.settled_batch (by
    intro index size after hdecision
    obtain ⟨admission, houtcome⟩ := Durable.denied_of_decided hdecision fun allowances hallowed => by
      cases batchDecision_allowed hallowed
    rw [houtcome] at hdecision
    unfold Durable.decided at hdecision
    simp only [h.aligned.runChecks_denied hne hmodes houtcome, hdecision] at hdurable
    cases hdurable) hmemory
  obtain ⟨decision, hdecision, hok⟩ := (hsettled.batch hne).resolve_left fun hoverflow =>
    outcome_ne_overflow tables hoverflow.1
  obtain ⟨tables', hrun, hcoupled⟩ := h.settled hle hne hnodup hmodes hsettled hdecision
  rw [hrun, hok]
  exact ⟨rfl, hcoupled, hsound⟩

/-- **One check**, which is a batch of one in both stores. -/
theorem Coupled.check_agrees (h : Coupled micros tables shards.abs) (hle : micros ≤ 1000 * millis)
    (hmillis : millis ≤ u64Max) (hfree : Set.InjOn Sha2.sha256 (FixedWindowPolicy.preimage '' known))
    (hs : MemoryStore.Sound known shards) {c : Check FixedWindowPolicy} (hc : c.policy ∈ known)
    (hdurable : (perform config (.tryAdmit (.atMillis millis) (.check c)) tables).1.outOfStorage = false)
    (hmemory : responseOutOfStorage (memoryPerform (.tryAdmit millis (.check c)) shards).1 = false) :
    Agrees (perform config (.tryAdmit (.atMillis millis) (.check c)) tables).1
        (memoryPerform (.tryAdmit millis (.check c)) shards).1 ∧
      Coupled (1000 * millis) (perform config (.tryAdmit (.atMillis millis) (.check c)) tables).2
        (memoryPerform (.tryAdmit millis (.check c)) shards).2.abs ∧
      MemoryStore.Sound known (memoryPerform (.tryAdmit millis (.check c)) shards).2 := by
  have hchecks : ∀ d ∈ [c], d.policy ∈ known := by simpa using hc
  have hmodes : ∀ d ∈ [c], d.quotaMode = firstQuotaMode [c] := by
    intro d hd
    rw [List.mem_singleton.1 hd]
    rfl
  obtain ⟨hresponse, hstore, hsound⟩ := h.memory_checkAll hle hmillis hfree hs hchecks
  have hsingle := MemoryStore.checkAll_singleton (.ok (Duration.fromMillis millis)) c shards hs.inv.countable
  have hcompared : Durable.Compared millis [c] shards.abs (outcome config millis [c] tables)
      (RefStore.checkAll fixedWindow millis [c] shards.abs) :=
    Durable.compared (h.live millis hle) (validateBatch_singleton memory c)
  -- what the memory store answers to the batch of one, it answers to the check
  have hstate : (MemoryStore.tryAdmit (.ok (Duration.fromMillis millis)) (.checkAll [c]) shards).2 =
      (memoryPerform (.tryAdmit millis (.check c)) shards).2 := congrArg Prod.snd hsingle
  obtain ⟨checked, hchecked⟩ : ∃ checked,
      (MemoryStore.tryAdmit (.ok (Duration.fromMillis millis)) (.check c) shards).1 = .check checked := ⟨_, rfl⟩
  have hbatch : (Response.check checked).asBatch =
      .checkAll (.returned (RefStore.checkAll fixedWindow millis [c] shards.abs).1) := by
    rw [← hchecked, ← hresponse]
    exact (congrArg Prod.fst hsingle).symm
  have hmemoryResponse : (memoryPerform (.tryAdmit millis (.check c)) shards).1 = some (.check checked) :=
    congrArg some hchecked
  rw [hmemoryResponse] at hmemory ⊢
  rw [← hstate, hstore]
  unfold perform tryAdmit PgWindows.check at hdurable ⊢
  simp only at hdurable ⊢
  have hsettled := hcompared.settled_single hbatch (by
    intro after hdecision
    obtain ⟨admission, houtcome⟩ := Durable.denied_of_decided hdecision fun allowances hallowed => by
      obtain ⟨allowance, -, hne⟩ := singleDecision_allowed hallowed
      cases hne
    rw [houtcome] at hdecision
    unfold Durable.decided at hdecision
    simp only [h.aligned.runChecks_denied (List.cons_ne_nil _ _) hmodes houtcome, hdecision] at hdurable
    cases hdurable) (by
    rintro after rfl
    cases hmemory)
  obtain ⟨decision, hdecision, rfl⟩ := (hsettled.single hbatch).resolve_left fun hoverflow =>
    outcome_ne_overflow tables hoverflow.1
  obtain ⟨tables', hrun, hcoupled⟩ := h.settled hle (List.cons_ne_nil c []) (List.nodup_singleton c.counterKey) hmodes
    hsettled hdecision
  rw [hrun]
  exact ⟨rfl, hcoupled, hsound⟩

/-- The batches of a run, valid for both stores. -/
def ValidBatches (config : PostgresConfig) (memory : MemoryStoreConfig) (actions : List Action) : Prop :=
  ∀ millis checks, Action.tryAdmit millis (.checkAll checks) ∈ actions →
    validateBatch checks config.maxBatchSize = .ok () ∧ validateBatch checks memory.maxBatchSize = .ok ()

/-- The policies of a run. -/
def policiesOf (actions : List Action) : Set FixedWindowPolicy :=
  { p | ∃ action ∈ actions, ∃ c ∈ action.command.checks, c.policy = p }

/-- **One action.** -/
theorem Coupled.perform_agrees (h : Coupled micros tables shards.abs)
    (hfree : Set.InjOn Sha2.sha256 (FixedWindowPolicy.preimage '' known)) (hs : MemoryStore.Sound known shards)
    {action : Action} (hle : micros ≤ action.micros) (hmillis : ∀ millis request, action = .tryAdmit millis request → millis ≤ u64Max)
    (hknown : ∀ c ∈ action.command.checks, c.policy ∈ known) (hvalid : ValidBatches config memory [action])
    (hdurable : (perform config action.command tables).1.outOfStorage = false)
    (hmemory : responseOutOfStorage (memoryPerform action shards).1 = false) :
    Agrees (perform config action.command tables).1 (memoryPerform action shards).1 ∧
      Coupled action.micros (perform config action.command tables).2 (memoryPerform action shards).2.abs ∧
      MemoryStore.Sound known (memoryPerform action shards).2 := by
  cases action with
  | cleanup run => exact ⟨trivial, h.cleanup hle, hs⟩
  | tryAdmit millis request =>
    have hbound := hmillis millis request rfl
    cases request with
    | check c => exact h.check_agrees hle hbound hfree hs (hknown c List.mem_cons_self) hdurable hmemory
    | checkAll checks =>
      obtain ⟨hvalidDurable, hvalidMemory⟩ := hvalid millis checks List.mem_cons_self
      exact h.batch_agrees hle hbound hfree hs hknown hvalidDurable hvalidMemory hdurable hmemory

/-- Runs from coupled states agree. -/
theorem Coupled.run_agrees (hfree : Set.InjOn Sha2.sha256 (FixedWindowPolicy.preimage '' known)) :
    ∀ {actions : List Action} {micros : ℕ} {tables : WindowTables} {shards : BoundedShards memory WindowEntry},
      Coupled micros tables shards.abs → MemoryStore.Sound known shards →
      (∀ action ∈ actions, micros ≤ action.micros) → (actions.map Action.micros).Pairwise (· ≤ ·) →
      (∀ millis request, Action.tryAdmit millis request ∈ actions → millis ≤ u64Max) →
      (∀ action ∈ actions, ∀ c ∈ action.command.checks, c.policy ∈ known) → ValidBatches config memory actions →
      (∀ event ∈ Machine.outputs (fun action => perform config action.command) tables actions, event.outOfStorage = false) →
      (∀ response ∈ Machine.outputs memoryPerform shards actions, responseOutOfStorage response = false) →
      List.Forall₂ Agrees (Machine.outputs (fun action => perform config action.command) tables actions)
        (Machine.outputs memoryPerform shards actions) := by
  intro actions
  induction actions with
  | nil => exact fun {_ _ _} _ _ _ _ _ _ _ _ _ => List.Forall₂.nil
  | cons action rest ih =>
    intro micros tables shards hcoupled hs hle hsorted hmillis hknown hvalid hdurable hmemory
    rw [List.map_cons, List.pairwise_cons] at hsorted
    rw [List.forall_mem_cons] at hle hknown
    rw [Machine.outputs_cons, List.forall_mem_cons] at hdurable hmemory
    obtain ⟨hagrees, hcoupled', hs'⟩ := hcoupled.perform_agrees hfree hs hle.1
      (fun millis request heq => hmillis millis request (heq ▸ List.mem_cons_self)) hknown.1
      (fun millis checks hmem => hvalid millis checks (by
        rw [List.mem_singleton.1 hmem]
        exact List.mem_cons_self)) hdurable.1 hmemory.1
    rw [Machine.outputs_cons, Machine.outputs_cons]
    refine List.Forall₂.cons hagrees (ih hcoupled' hs' ?_ hsorted.2 ?_ hknown.2 ?_ hdurable.2 hmemory.2)
    · exact fun action' hmem => hsorted.1 _ (List.mem_map_of_mem hmem)
    · exact fun millis request hmem => hmillis millis request (List.mem_cons_of_mem _ hmem)
    · exact fun millis checks hmem => hvalid millis checks (List.mem_cons_of_mem _ hmem)

/-! ## The batch and the run -/

/-- How a denied batch is reported. -/
def reported (checks : List (Check FixedWindowPolicy)) (index : ℕ) (elapsed : Duration) : PendingDenial → BatchOutcome
  | .quota denial => .quotaExceeded (firstQuotaMode checks) index checks.length (denial.finish elapsed)
  | .storageCapacity => .denied index checks.length (.storageCapacity none)

/-- A batch is decided by one scan of its inputs, from left to right. -/
structure OneScan (config : PostgresConfig) (samples : Samples) (checks : List (Check FixedWindowPolicy))
    (tables : WindowTables) : Prop where
  /-- The first refused input is the reported denial, and nothing changes. -/
  denied : ∀ index denial, Refused (refusal tables config.maximumRowsPerShard samples.databaseNow) checks index denial →
    (∀ j d, j < index → ¬Refused (refusal tables config.maximumRowsPerShard samples.databaseNow) checks j d) →
    checkAll config samples checks tables = (.ok ⟨reported checks index
      (authoritativeElapsed samples.databaseNow samples.preflightResponse) denial⟩, tables)
  /-- Without one, every input is consumed, and granted what its row has left. -/
  allowed : (∀ j d, ¬Refused (refusal tables config.maximumRowsPerShard samples.databaseNow) checks j d) →
    checkAll config samples checks tables = (.ok ⟨.allowed (checks.map fun c => (granted tables samples.databaseNow c).finish
      (authoritativeElapsed samples.databaseNow samples.upsertResponse))⟩, consumedTables tables samples.databaseNow checks)
  /-- The rows of the inputs afterwards, and those of everything else. -/
  rows : (∀ c ∈ checks, (consumedTables tables samples.databaseNow checks).rows.lookup c.counterKey =
      some (consumedRow tables samples.databaseNow c)) ∧
    ∀ key, (∀ c ∈ checks, c.counterKey ≠ key) →
      (consumedTables tables samples.databaseNow checks).rows.lookup key = tables.rows.lookup key

/-- **One scan.** A valid batch is answered by its first refused check, and otherwise consumed whole. -/
theorem oneScan {samples : Samples} (hvalid : validateBatch checks config.maxBatchSize = .ok ()) :
    OneScan config samples checks tables where
  denied := by
    intro index denial hrefused hfirst
    have hexecute := @executeBatch_denied _ tables checks config samples _ _ (firstRefused_eq_some hrefused hfirst)
    have hindex : index < checks.length := by
      obtain ⟨before, c, after, rfl, rfl, -⟩ := hrefused
      rw [List.length_append, List.length_cons]
      omega
    unfold checkAll runChecks transact
    rw [hvalid, hexecute]
    unfold admissionOf deniedAdmission reported
    cases denial with
    | quota denial =>
      simp only [except_ok_bind, batchDecision_quota _ hindex]
      rfl
    | storageCapacity =>
      simp only [except_ok_bind, batchDecision_storage hindex]
      rfl
  allowed := by
    intro hnone
    obtain ⟨hne, -⟩ := validateBatch_ok hvalid
    have hexecute := @executeBatch_allowed _ tables checks config samples hne (firstRefused_eq_none hnone)
    -- a batch without a refused check is answered with as many allowances
    have hlength : ∀ f : Check FixedWindowPolicy → Allowance, batchDecision checks.length (.allowed (checks.map f)) =
        .ok ⟨.allowed (checks.map f)⟩ := by
      intro f
      have hallowed := @batchDecision_eq (checks.map f) (by simpa using hne)
      rw [List.length_map] at hallowed
      exact hallowed
    unfold checkAll runChecks transact
    rw [hvalid, hexecute]
    unfold admissionOf
    simp only [except_ok_bind, List.map_map, hlength, consumedWrites_apply]
    rfl
  rows := lookup_consumedTables (validateBatch_ok hvalid).2

/-- **The durable windows scan a batch once, and agree with the memory store.** For every state of the
tables and every valid batch, the first input without quota or without room decides. Over any sequence of
checks and valid batches in nondecreasing whole milliseconds, with no time between sample and
response and cleanups anywhere, the durable limiter and the memory store return the same decisions, as long
as neither refuses for lack of storage. -/
theorem windows_scan_agree (config : PostgresConfig) (memory : MemoryStoreConfig) :
    (∀ samples checks tables, validateBatch checks config.maxBatchSize = .ok () →
      OneScan config samples checks tables) ∧
    ∀ actions : List Action, Set.InjOn Sha2.sha256 (FixedWindowPolicy.preimage '' policiesOf actions) →
      (actions.map Action.micros).Pairwise (· ≤ ·) →
      (∀ millis request, Action.tryAdmit millis request ∈ actions → millis ≤ u64Max) →
      ValidBatches config memory actions →
      (∀ event ∈ Machine.outputs (fun action => perform config action.command) migrated actions,
        event.outOfStorage = false) →
      (∀ response ∈ Machine.outputs memoryPerform (BoundedShards.new memory) actions,
        responseOutOfStorage response = false) →
      List.Forall₂ Agrees (Machine.outputs (fun action => perform config action.command) migrated actions)
        (Machine.outputs memoryPerform (BoundedShards.new memory) actions) := by
  refine ⟨fun samples checks tables hvalid => oneScan hvalid, ?_⟩
  intro actions hfree hsorted hmillis hvalid hdurable hmemory
  have hcoupled : Coupled 0 migrated (BoundedShards.new memory : BoundedShards memory WindowEntry).abs := by
    rw [BoundedShards.abs_new]
    exact Coupled.new
  exact Coupled.run_agrees hfree hcoupled (MemoryStore.Sound.new _) (fun _ _ => Nat.zero_le _) hsorted hmillis
    (fun action haction c hc => ⟨action, haction, c, hc, rfl⟩) hvalid hdurable hmemory

end Runs

/-- Two batches, and a cleanup between them. -/
def windowActions : letI := vectorSha2; List Action :=
  letI := vectorSha2
  [.tryAdmit 5 (.checkAll pairChecks),
    .cleanup ⟨8, 1007500, ∅, [⟨searchPolicy.fingerprint, Digest.replicate 2⟩]⟩, .tryAdmit 1010 (.checkAll pairChecks)]

theorem windows_scan_agree_pair :
    letI := vectorSha2
    List.Forall₂ Agrees (Machine.outputs (fun action => perform .new action.command) migrated windowActions)
        (Machine.outputs memoryPerform (BoundedShards.new pairConfig) windowActions) ∧
      OneScan .new (.atMillis 5) pairChecks migrated := by
  let := vectorSha2
  have hsub : policiesOf windowActions ⊆ {loginPolicy, searchPolicy} := by
    rintro p ⟨action, haction, c, hc, rfl⟩
    simp only [windowActions, List.mem_cons, List.not_mem_nil, or_false] at haction
    rcases haction with rfl | rfl | rfl
    · rcases List.mem_pair.1 hc with rfl | rfl
      · exact Or.inl rfl
      · exact Or.inr rfl
    · cases hc
    · rcases List.mem_pair.1 hc with rfl | rfl
      · exact Or.inl rfl
      · exact Or.inr rfl
  have hmillis : ∀ millis request, Action.tryAdmit millis request ∈ windowActions → millis ≤ u64Max := by
    intro millis request haction
    simp only [windowActions, List.mem_cons, List.not_mem_nil, or_false] at haction
    rcases haction with h | h | h
    · cases h
      decide
    · cases h
    · cases h
      decide
  have hvalid : ValidBatches .new pairConfig windowActions := by
    intro millis checks haction
    simp only [windowActions, List.mem_cons, List.not_mem_nil, or_false] at haction
    rcases haction with h | h | h
    · cases h
      exact ⟨by decide +kernel, by decide +kernel⟩
    · cases h
    · cases h
      exact ⟨by decide +kernel, by decide +kernel⟩
  exact ⟨(windows_scan_agree .new pairConfig).2 windowActions (vector_fixedWindow_injOn.mono (Set.image_mono hsub))
    (by decide) hmillis hvalid (by decide +kernel) (by decide +kernel),
    (windows_scan_agree .new pairConfig).1 _ _ _ (by decide +kernel)⟩

end PgWindows

end Runlimit
