import Runlimit.Proof.GcraRate
import Runlimit.Proof.PgGcraSteps

/-!
# The rate bound of the durable GCRA limiter

The level of a key is the arrival time its bucket stands for at the time of its shard, whether or not
the row is still there. Clocks that go back, denials that forget the time they saw and cleanups
that forget arrival times leave it alone or raise it to the time of the shard; a committed check
raises it by its scaled cost (`perform_level`). The bound over a run is the potential argument of
the memory store (`durable_gcra_rate`).
-/

namespace Runlimit

open Bucket

namespace PgGcra

variable {tables tables' : GcraTables} {key : CounterKey} {policy : GcraPolicy}

/-- The level of a key. -/
def levelOf (policy : GcraPolicy) (key : CounterKey) (tables : GcraTables) : ℕ :=
  level policy.quota.get (observed tables key) ((tables.rows.lookup key).map (·.tatScaled))

/-- The row of a key expires when its arrival time is reached, which is within the burst span of
the time of its shard. -/
def Sound (policy : GcraPolicy) (key : CounterKey) (tables : GcraTables) : Prop :=
  ∀ row, tables.rows.lookup key = some row →
    row.expiresAtMs = divCeil row.tatScaled policy.quota.get ∧
    row.tatScaled ≤ observed tables key * policy.quota.get + Gcra.burstSpan policy

/-- The migrated tables have no rows. -/
theorem Sound.migrated : Sound policy key migrated := by
  intro row h
  simp [PgGcra.migrated] at h

/-- The level is within the burst span of the time of the shard. -/
theorem Sound.level_le (h : Sound policy key tables) :
    levelOf policy key tables ≤ observed tables key * policy.quota.get + Gcra.burstSpan policy := by
  unfold levelOf level
  cases hrow : tables.rows.lookup key with
  | none => simp
  | some row =>
    have hle := (h row hrow).2
    simp only [Option.map_some, Option.getD_some]
    omega

/-- An expired row stands for the level of the clock. -/
theorem Sound.level_expired (h : Sound policy key tables) {now : ℕ} {row : GcraRow}
    (hrow : tables.rows.lookup key = some row) (hexpired : row.expiresAtMs ≤ now) :
    level policy.quota.get now none = level policy.quota.get now ((tables.rows.lookup key).map (·.tatScaled)) := by
  refine level_forget ?_
  intro tat htat
  rw [hrow, Option.map_some, Option.mem_some_iff] at htat
  subst htat
  have hexpires := (h row hrow).1
  rw [hexpires, divCeil_le_iff policy.quota.pos] at hexpired
  exact hexpired

/-- Only the active arrival time counts. -/
theorem Sound.level_active (h : Sound policy key tables) (now : ℕ) :
    level policy.quota.get now (activeTat now (tables.rows.lookup key)) =
      level policy.quota.get now ((tables.rows.lookup key).map (·.tatScaled)) := by
  unfold activeTat
  cases hrow : tables.rows.lookup key with
  | none => rfl
  | some row =>
    by_cases hactive : now < row.expiresAtMs
    · rw [Option.filter_some, if_pos (decide_eq_true hactive)]
    · have hexpired := h.level_expired hrow (Nat.not_lt.1 hactive)
      rw [hrow] at hexpired
      rw [Option.filter_some, if_neg (by simpa using hactive), Option.map_none]
      exact hexpired

/-- Time moves on, and an expired row may be deleted. -/
theorem Sound.passed (h : Sound policy key tables) (hobserved : observed tables key ≤ observed tables' key)
    (hlookup : tables'.rows.lookup key = tables.rows.lookup key ∨
      (tables'.rows.lookup key = none ∧ ∃ row, tables.rows.lookup key = some row ∧
        row.expiresAtMs ≤ observed tables' key)) :
    Sound policy key tables' ∧
      levelOf policy key tables' = max (levelOf policy key tables) (observed tables' key * policy.quota.get) := by
  have hadvance := @level_advance policy.quota.get (observed tables key)
    ((tables.rows.lookup key).map (·.tatScaled)) _ hobserved
  unfold levelOf
  rw [← hadvance]
  -- an expired row stands for the level of the clock, so deleting it changes no level
  rcases hlookup with hsame | ⟨hnone, row, hrow, hexpired⟩
  · rw [hsame]
    refine ⟨?_, rfl⟩
    intro row hrow
    rw [hsame] at hrow
    obtain ⟨hexpires, htat⟩ := h row hrow
    have hscaled := Nat.mul_le_mul_right policy.quota.get hobserved
    exact ⟨hexpires, by omega⟩
  · refine ⟨?_, ?_⟩
    · intro row' hrow'
      rw [hnone] at hrow'
      cases hrow'
    · rw [hnone, Option.map_none]
      exact h.level_expired hrow hexpired

/-- A committed check raises the level by its scaled cost. -/
theorem Sound.charged [Sha2] (h : Sound policy key tables) {c : Check GcraPolicy} {allowance : Gcra.PendingAllowance}
    (hkey : c.counterKey = key) (hquota : c.policy.SameQuota policy)
    (hobserved : observed tables key ≤ observed tables' key)
    (hevaluated : Evaluated (observed tables' key) tables c allowance)
    (hlookup : tables'.rows.lookup key = some (rowOf allowance)) :
    Sound policy key tables' ∧
      levelOf policy key tables' = max (levelOf policy key tables) (observed tables' key * policy.quota.get) +
        c.cost * policy.period.millis := by
  obtain ⟨hq, hp, hb⟩ := hquota
  obtain ⟨htat, hle, hexpires⟩ := Gcra.evaluate_level hevaluated
  unfold Gcra.burstSpan at hle
  rw [hkey, hq, hp, h.level_active] at htat
  rw [hq, hp, hb] at hle
  rw [hq] at hexpires
  have hadvance := @level_advance policy.quota.get (observed tables key)
    ((tables.rows.lookup key).map (·.tatScaled)) _ hobserved
  rw [hadvance] at htat
  refine ⟨?_, ?_⟩
  · intro row hrow
    rw [hlookup, Option.some.injEq] at hrow
    subst hrow
    exact ⟨hexpires, hle⟩
  · unfold levelOf
    have hscaled : observed tables' key * policy.quota.get ≤ allowance.tatScaled := by omega
    rw [hlookup, Option.map_some]
    change level _ _ (some allowance.tatScaled) = _
    rw [level_some hscaled, htat]

/-! ## What a command does to a key -/

section Commands

variable [Sha2] {config : PostgresConfig}

/-- The keys of the written rows are those of the checks. -/
theorem written_keys {now : ℕ} {checks : List (Check GcraPolicy)} {allowances : List Gcra.PendingAllowance}
    (h : List.Forall₂ (Evaluated now tables) checks allowances) :
    (written checks allowances).map Prod.fst = checks.map Check.counterKey := by
  induction h with
  | nil => rfl
  | cons _ _ ih =>
    unfold written at *
    rw [List.zipWith_cons_cons, List.map_cons, List.map_cons, ih]

/-- Every evaluated check has its row among the written ones. -/
theorem mem_written {now : ℕ} {checks : List (Check GcraPolicy)} {allowances : List Gcra.PendingAllowance}
    (h : List.Forall₂ (Evaluated now tables) checks allowances) {c : Check GcraPolicy} (hc : c ∈ checks) :
    ∃ allowance, Evaluated now tables c allowance ∧ (c.counterKey, rowOf allowance) ∈ written checks allowances := by
  induction h with
  | nil => cases hc
  | @cons d allowance checks allowances hevaluated _ ih =>
    unfold written at *
    rw [List.zipWith_cons_cons]
    rcases List.mem_cons.1 hc with rfl | hmem
    · exact ⟨allowance, hevaluated, List.mem_cons_self⟩
    · obtain ⟨allowance', hevaluated', hmem'⟩ := ih hmem
      exact ⟨allowance', hevaluated', List.mem_cons_of_mem _ hmem'⟩

/-- A key of a committed admission gets its evaluated row. -/
theorem Committed.lookup_of_mem {sample : ℕ} {checks : List (Check GcraPolicy)}
    {allowances : List Gcra.PendingAllowance} (h : Committed sample checks allowances tables tables')
    (hnodup : (checks.map Check.counterKey).Nodup) {c : Check GcraPolicy} (hc : c ∈ checks) :
    ∃ allowance, Evaluated (clampedMs tables checks sample) tables c allowance ∧
      tables'.rows.lookup c.counterKey = some (rowOf allowance) := by
  obtain ⟨allowance, hevaluated, hmem⟩ := mem_written h.evaluated hc
  refine ⟨allowance, hevaluated, ?_⟩
  rw [h.rows_eq]
  refine Finmap.lookup_foldl_insert_of_mem ?_ hmem
  rw [written_keys h.evaluated]
  exact hnodup

/-- Any other key keeps its row. -/
theorem Committed.lookup_of_notMem {sample : ℕ} {checks : List (Check GcraPolicy)}
    {allowances : List Gcra.PendingAllowance} (h : Committed sample checks allowances tables tables')
    (hkey : ∀ c ∈ checks, c.counterKey ≠ key) : tables'.rows.lookup key = tables.rows.lookup key := by
  rw [h.rows_eq]
  refine Finmap.lookup_foldl_insert_of_notMem ?_
  intro entry hentry heq
  have hmem : entry.1 ∈ checks.map Check.counterKey := by
    rw [← written_keys h.evaluated]
    exact List.mem_map_of_mem hentry
  obtain ⟨c, hc, hck⟩ := List.mem_map.1 hmem
  exact hkey c hc (hck.trans heq)

/-- A commit does not take the time of any shard back. -/
theorem Committed.observed_le {sample : ℕ} {checks : List (Check GcraPolicy)}
    {allowances : List Gcra.PendingAllowance} (h : Committed sample checks allowances tables tables') (shard : CapacityShard) :
    (tables.shards shard).observedAtMs ≤ (tables'.shards shard).observedAtMs := by
  rw [h.observed_eq]
  split
  · rename_i hlocked
    exact observed_le_clampedMs hlocked
  · exact le_rfl

/-- What a command does to a key: time may pass on its shard and its expired row may go, or one of
its checks is committed. -/
inductive KeyStep (key : CounterKey) (command : Command) (event : Event) (tables tables' : GcraTables) : Prop where
  | passed (hcost : event.cost key = 0) (hobserved : observed tables key ≤ observed tables' key)
      (htouch : event.Touches (capacityShard key) → observed tables' key = event.nowMillis)
      (hlookup : tables'.rows.lookup key = tables.rows.lookup key ∨
        (tables'.rows.lookup key = none ∧ ∃ row, tables.rows.lookup key = some row ∧
          row.expiresAtMs ≤ observed tables' key))
  | charged (c : Check GcraPolicy) (hc : c ∈ command.checks) (allowance : Gcra.PendingAllowance)
      (hkey : c.counterKey = key)
      (hcost : event.cost key = c.cost) (hobserved : observed tables key ≤ observed tables' key)
      (hnow : observed tables' key = event.nowMillis)
      (hevaluated : Evaluated (observed tables' key) tables c allowance)
      (hlookup : tables'.rows.lookup key = some (rowOf allowance))

/-- What is refused is not charged. -/
theorem cost_refused {now : ℕ} {request : Request GcraPolicy} {response : PgResponse} (h : response.allowed = false) :
    (Event.admission now request response).cost key = 0 := if_neg (Bool.eq_false_iff.1 h)

theorem cost_allowed {now : ℕ} {request : Request GcraPolicy} {response : PgResponse} (h : response.allowed = true) :
    (Event.admission now request response).cost key =
      ((request.checks.filter fun c => decide (c.counterKey = key)).map (·.cost)).sum := if_pos h

/-- **One command, one key.** -/
theorem perform_keyStep (config : PostgresConfig) (command : Command) (tables : GcraTables) (key : CounterKey) :
    KeyStep key command (perform config command tables).1 tables (perform config command tables).2 := by
  cases command with
  | cleanup run =>
    obtain ⟨hcleaned, -⟩ := cleanup_step run tables
    exact .passed rfl (hcleaned.observed_le _) (fun h => h.elim) (hcleaned.lookup key)
  | tryAdmit sample request =>
    unfold perform
    simp only
    rcases tryAdmit_cases config sample request tables with ⟨htables, hrefused⟩ | ⟨allowances, hcommitted, hallowed, hnodup⟩
    · rw [htables]
      refine .passed ?_ le_rfl ?_ (Or.inl rfl)
      · exact cost_refused hrefused
      · rintro ⟨hallowed, -⟩
        rw [hrefused] at hallowed
        cases hallowed
    · have hobserved := hcommitted.observed_le (capacityShard key)
      -- a committed admission leaves its time in every shard it locked
      have htime : (∃ c ∈ request.checks, capacityShard c.counterKey = capacityShard key) →
          observed (tryAdmit config sample request tables).2 key = clampedMs tables request.checks sample := by
        intro hshard
        unfold observed
        rw [hcommitted.observed_eq, if_pos (mem_lockedShards.2 hshard)]
      by_cases hmem : ∃ c ∈ request.checks, c.counterKey = key
      · obtain ⟨c, hc, rfl⟩ := hmem
        obtain ⟨allowance, hevaluated, hlookup⟩ := hcommitted.lookup_of_mem hnodup hc
        have hnow := htime ⟨c, hc, rfl⟩
        refine .charged c hc allowance rfl ?_ hobserved hnow ?_ hlookup
        · rw [cost_allowed hallowed, filter_key_eq_singleton hnodup hc, List.map_singleton, List.sum_singleton]
        · rw [hnow]
          exact hevaluated
      · -- no check of the key: its shard may have been locked for another
        have hother : ∀ c ∈ request.checks, c.counterKey ≠ key := fun c hc heq => hmem ⟨c, hc, heq⟩
        refine .passed ?_ hobserved (fun h => htime h.2) (Or.inl (hcommitted.lookup_of_notMem hother))
        have hfilter : request.checks.filter (fun c => decide (c.counterKey = key)) = [] := by
          rw [List.filter_eq_nil_iff]
          intro c hc
          rw [decide_eq_true_eq]
          exact hother c hc
        rw [cost_allowed hallowed, hfilter, List.map_nil, List.sum_nil]

/-- **One command, one level.** -/
theorem perform_level {command : Command} (h : Sound policy key tables)
    (hquota : ∀ c ∈ command.checks, c.counterKey = key → c.policy.SameQuota policy) :
    Sound policy key (perform config command tables).2 ∧
      levelOf policy key (perform config command tables).2 =
        max (levelOf policy key tables) (observed (perform config command tables).2 key * policy.quota.get) +
          (perform config command tables).1.cost key * policy.period.millis ∧
      ((perform config command tables).1.Touches (capacityShard key) →
        observed (perform config command tables).2 key = (perform config command tables).1.nowMillis) := by
  cases perform_keyStep config command tables key with
  | passed hcost hobserved htouch hlookup =>
    obtain ⟨hsound, hlevel⟩ := h.passed hobserved hlookup
    refine ⟨hsound, ?_, htouch⟩
    rw [hcost, Nat.zero_mul, Nat.add_zero]
    exact hlevel
  | charged c hc allowance hkey hcost hobserved hnow hevaluated hlookup =>
    obtain ⟨hsound, hlevel⟩ := h.charged hkey (hquota c hc hkey) hobserved hevaluated hlookup
    rw [hcost]
    exact ⟨hsound, hlevel, fun _ => hnow⟩

/-- No command takes the time of a shard back. -/
theorem perform_observed_le (config : PostgresConfig) (command : Command) (tables : GcraTables) (shard : CapacityShard) :
    (tables.shards shard).observedAtMs ≤ ((perform config command tables).2.shards shard).observedAtMs := by
  cases command with
  | cleanup run => exact (cleanup_step run tables).1.observed_le shard
  | tryAdmit sample request =>
    unfold perform
    simp only
    rcases tryAdmit_cases config sample request tables with ⟨htables, -⟩ | ⟨allowances, hcommitted, -, -⟩
    · rw [htables]
    · exact hcommitted.observed_le shard

/-! ## Runs -/

/-- Times never go back. -/
theorem observed_le_final (config : PostgresConfig) (tables : GcraTables) (commands : List Command) (shard : CapacityShard) :
    (tables.shards shard).observedAtMs ≤
      ((Machine.final (perform config) tables commands).shards shard).observedAtMs := by
  refine @Machine.final_inv _ _ _ _ (fun _ => True)
    (fun tables' => (tables.shards shard).observedAtMs ≤ (tables'.shards shard).observedAtMs) ?_ tables le_rfl commands
    fun _ _ => trivial
  intro command tables' _ hle
  exact hle.trans (perform_observed_le config command tables' shard)

/-- Two committed admissions on one shard, in order. -/
theorem touch_times_le {commands : List Command} {m n : ℕ} (hmn : m ≤ n) {first last : Event}
    (hfirst : (Machine.outputs (perform config) tables commands)[m]? = some first)
    (hlast : (Machine.outputs (perform config) tables commands)[n]? = some last)
    (htouchFirst : first.Touches (capacityShard key)) (htouchLast : last.Touches (capacityShard key)) :
    first.nowMillis ≤ last.nowMillis := by
  have htouch : ∀ (command : Command) (tables : GcraTables),
      (perform config command tables).1.Touches (capacityShard key) →
      observed (perform config command tables).2 key = (perform config command tables).1.nowMillis := by
    intro command tables h
    cases perform_keyStep config command tables key with
    | passed hcost hobserved htouch hlookup => exact htouch h
    | charged c hc allowance hkey hcost hobserved hnow hevaluated hlookup => exact hnow
  -- the times of the shard as a charge of nothing between two marks
  have hbound := @Machine.charged_between _ _ _ _ (fun _ => True) (fun _ => True) (fun tables => observed tables key)
    (fun _ => 0) Event.nowMillis Event.nowMillis (Event.Touches (capacityShard key)) ?_ ?_ ?_ _ trivial _
    (fun _ _ => trivial) _ _ hmn _ _ hfirst hlast htouchFirst htouchLast
  · omega
  · intro command tables _ _
    exact ⟨perform_observed_le config command tables _, trivial⟩
  · intro command tables _ _ hmark
    exact (htouch command tables hmark).ge
  · intro command tables _ _ hmark
    exact (htouch command tables hmark).le

/-- Every check of the key is made under a policy with this quota, period and burst capacity. -/
def QuotaOf (commands : List Command) (key : CounterKey) (policy : GcraPolicy) : Prop :=
  ∀ command ∈ commands, ∀ c ∈ command.checks, c.counterKey = key → c.policy.SameQuota policy

/-- What is committed of a key between two committed admissions on its shard. -/
theorem rate_between {commands : List Command} (hquota : QuotaOf commands key policy) {m n : ℕ} (hmn : m ≤ n)
    {first last : Event} (hfirst : (Machine.outputs (perform config) migrated commands)[m]? = some first)
    (hlast : (Machine.outputs (perform config) migrated commands)[n]? = some last)
    (htouchFirst : first.Touches (capacityShard key)) (htouchLast : last.Touches (capacityShard key)) :
    ((((Machine.outputs (perform config) migrated commands).take (n + 1)).drop m).map (Event.cost key)).sum *
        policy.period.millis ≤
      policy.burstCapacity.get * policy.period.millis + (last.nowMillis - first.nowMillis) * policy.quota.get := by
  have htime := touch_times_le hmn hfirst hlast htouchFirst htouchLast
  have hbound := Machine.charged_between (Sound policy key) (levelOf policy key)
    (fun event : Event => event.cost key * policy.period.millis) (fun event => event.nowMillis * policy.quota.get)
    (fun event => event.nowMillis * policy.quota.get + Gcra.burstSpan policy) (Event.Touches (capacityShard key))
    ?_ ?_ ?_ Sound.migrated hquota hmn hfirst hlast htouchFirst htouchLast
  · rw [List.sum_map_mul_right] at hbound
    -- what the quota gains between the two times
    have hgain : (last.nowMillis - first.nowMillis) * policy.quota.get + first.nowMillis * policy.quota.get =
        last.nowMillis * policy.quota.get := by
      rw [← Nat.add_mul, Nat.sub_add_cancel htime]
    unfold Gcra.burstSpan at hbound
    change _ + List.sum (List.map (Event.cost key) _) * _ ≤ _ at hbound
    omega
  · intro command tables hcommand hsound
    obtain ⟨hsound', hlevel, -⟩ := perform_level hsound hcommand
    exact ⟨by omega, hsound'⟩
  · intro command tables hcommand hsound hmark
    obtain ⟨-, hlevel, hnow⟩ := perform_level hsound hcommand
    rw [hnow hmark] at hlevel
    omega
  · intro command tables hcommand hsound hmark
    obtain ⟨hsound', -, hnow⟩ := perform_level hsound hcommand
    have hle := hsound'.level_le
    rw [hnow hmark] at hle
    exact hle

end Commands

/-- **Durable GCRA stays within its rate**, whatever the clock does and whenever rows are cleaned up:
the time of a shard never goes back, only rows that have expired at the time of their shard are
deleted, and what is committed of a key between two committed admissions on its shard is at most
its burst capacity and what its quota gains over the time between them. -/
theorem durable_gcra_rate [Sha2] (config : PostgresConfig) (commands : List Command) :
    (∀ before after, commands = before ++ after → ∀ shard,
      ((reached config before).shards shard).observedAtMs ≤ ((reached config commands).shards shard).observedAtMs) ∧
    (∀ before command after, commands = before ++ command :: after → ∀ key row,
      (reached config before).rows.lookup key = some row →
      (reached config (before ++ [command])).rows.lookup key = none →
      row.expiresAtMs ≤ ((reached config commands).shards (capacityShard key)).observedAtMs) ∧
    ∀ key policy, QuotaOf commands key policy → ∀ m n, m ≤ n → ∀ first last : Event,
      (Machine.outputs (perform config) migrated commands)[m]? = some first →
      (Machine.outputs (perform config) migrated commands)[n]? = some last →
      first.Touches (capacityShard key) → last.Touches (capacityShard key) →
      first.nowMillis ≤ last.nowMillis ∧
        ((((Machine.outputs (perform config) migrated commands).take (n + 1)).drop m).map (Event.cost key)).sum *
            policy.period.millis ≤
          policy.burstCapacity.get * policy.period.millis + (last.nowMillis - first.nowMillis) * policy.quota.get := by
  refine ⟨?_, ?_, ?_⟩
  · rintro before after rfl shard
    unfold reached
    rw [Machine.final_append]
    -- the later commands only move the time on
    exact observed_le_final config _ after shard
  · rintro before command after rfl key row hrow hnone
    have hsplit : before ++ command :: after = (before ++ [command]) ++ after := by simp
    have hstep : reached config (before ++ [command]) = (perform config command (reached config before)).2 := by
      unfold reached
      rw [Machine.final_append]
      rfl
    have hlater : observed (reached config (before ++ [command])) key ≤
        ((reached config (before ++ command :: after)).shards (capacityShard key)).observedAtMs := by
      rw [hsplit]
      unfold reached
      rw [Machine.final_append _ (before ++ [command]) after]
      exact observed_le_final config _ after _
    rw [hstep] at hnone hlater
    refine le_trans ?_ hlater
    cases perform_keyStep config command (reached config before) key with
    | passed hcost hobserved htouch hlookup =>
      rcases hlookup with hsame | ⟨-, row', hrow', hexpired⟩
      · rw [hnone, hrow] at hsame
        cases hsame
      · rw [hrow, Option.some.injEq] at hrow'
        rw [hrow']
        exact hexpired
    | charged c hc allowance hkey hcost hobserved hnow hevaluated hlookup =>
      rw [hnone] at hlookup
      cases hlookup
  · intro key policy hquota m n hmn first last hfirst hlast htouchFirst htouchLast
    exact ⟨touch_times_le hmn hfirst hlast htouchFirst htouchLast,
      rate_between hquota hmn hfirst hlast htouchFirst htouchLast⟩

/-- A read that spends most of the burst, a cleanup that deletes its row once it has expired, and a batch at a clock
that has gone back. -/
def regressingCommands : letI := vectorSha2; List Command :=
  letI := vectorSha2
  [.tryAdmit 5 readCall.request, .cleanup ⟨8, 1900, 2000, ∅, [⟨readPolicy.fingerprint, Digest.replicate 1⟩]⟩,
    .tryAdmit 3 readWriteCall.request]

theorem durable_gcra_rate_regressing :
    letI := vectorSha2
    ∃ first middle last row, Machine.outputs (perform .new) migrated regressingCommands = [first, middle, last] ∧
      first.cost ⟨readPolicy.fingerprint, Digest.replicate 1⟩ = 18 ∧
      last.cost ⟨readPolicy.fingerprint, Digest.replicate 1⟩ = 1 ∧ first.nowMillis = 5 ∧ last.nowMillis = 2000 ∧
      ([first, middle, last].map (Event.cost ⟨readPolicy.fingerprint, Digest.replicate 1⟩)).sum * 1000 ≤
        20 * 1000 + (last.nowMillis - first.nowMillis) * 10 ∧
      (reached .new (regressingCommands.take 1)).rows.lookup ⟨readPolicy.fingerprint, Digest.replicate 1⟩ = some row ∧
      (reached .new (regressingCommands.take 2)).rows.lookup ⟨readPolicy.fingerprint, Digest.replicate 1⟩ = none ∧
      row.expiresAtMs ≤ ((reached .new regressingCommands).shards
        (capacityShard ⟨readPolicy.fingerprint, Digest.replicate 1⟩)).observedAtMs := by
  let := vectorSha2
  have hquota : QuotaOf regressingCommands ⟨readPolicy.fingerprint, Digest.replicate 1⟩ readPolicy := by
    intro command hcommand c hc hkey
    simp only [regressingCommands, List.mem_cons, List.not_mem_nil, or_false] at hcommand
    rcases hcommand with rfl | rfl | rfl
    · rw [List.mem_singleton.1 hc]
      exact ⟨rfl, rfl, rfl⟩
    · cases hc
    · rcases List.mem_pair.1 hc with rfl | rfl
      · exact ⟨rfl, rfl, rfl⟩
      · exact absurd hkey (by decide +kernel)
  have hrow : (reached .new (regressingCommands.take 1)).rows.lookup ⟨readPolicy.fingerprint, Digest.replicate 1⟩ =
      some ⟨18050, 1805⟩ := by
    decide +kernel
  have hnone : (reached .new (regressingCommands.take 2)).rows.lookup ⟨readPolicy.fingerprint, Digest.replicate 1⟩ =
      none := by
    decide +kernel
  have hexact := durable_gcra_rate .new regressingCommands
  exact ⟨_, _, _, _, rfl, by decide +kernel, by decide +kernel, by decide +kernel, by decide +kernel,
    (hexact.2.2 _ readPolicy hquota 0 2 (by decide) _ _ rfl rfl
      ⟨by decide +kernel, _, List.mem_cons_self, rfl⟩ ⟨by decide +kernel, _, List.mem_cons_self, rfl⟩).2, hrow, hnone,
    hexact.2.1 (regressingCommands.take 1) _ _ rfl _ _ hrow hnone⟩

end PgGcra

end Runlimit
