import Runlimit.Proof.EagerRefines
import Runlimit.Proof.PgBackoff
import Runlimit.Spec.Backends

/-!
# What the statements do to rows

A row stands for a state of the eager machine (`PgShows`): the one it was written for, whose transitions may have come
due since. It is not the entry of the memory limiter that stands for the same state: the row is kept after a success,
and a denial does not change it. An admission decides on the row as the machine does on the state that is due
(`PgShows.judged`), and so does a completion (`PgShows.completed`).
-/

namespace Runlimit

namespace PgAttempts

/-! ## Cleanups -/

section Cleanup

variable {sweep : Sweep} {shard : CapacityShard} {rows : AttemptRows} {key : AttemptKey}

/-- The rows a cleanup selects have been quiet, and are not locked. -/
theorem mem_cleanupSelect (h : key ∈ cleanupSelect sweep shard rows) :
    ∃ row, rows.lookup key = some row ∧ capacityShard key = shard ∧ row.expiryMs ≤ sweep.sampledAtMs ∧
      key ∉ sweep.locked := by
  have hmem := List.mem_of_mem_take h
  rw [List.mem_insertionSort, List.mem_filter] at hmem
  have hquiet := hmem.2
  unfold quietIn at hquiet
  split at hquiet
  · cases hquiet
  · rename_i row hrow
    exact ⟨row, hrow, of_decide_eq_true hquiet⟩

/-- A cleanup deletes what it selects. -/
theorem lookup_cleanup :
    (cleanup sweep shard rows).lookup key = if key ∈ cleanupSelect sweep shard rows then none else rows.lookup key :=
  Finmap.lookup_foldl_erase

end Cleanup

/-! ## What a row shows -/

/-- The nanoseconds of some milliseconds. -/
def nanosOf (millis : ℕ) : ℕ := millis * 10 ^ 6

/-- Milliseconds and nanoseconds are ordered alike. -/
theorem nanosOf_le {a b : ℕ} : nanosOf a ≤ nanosOf b ↔ a ≤ b := by
  unfold nanosOf
  omega

theorem nanosOf_lt {a b : ℕ} : nanosOf a < nanosOf b ↔ a < b := by
  unfold nanosOf
  omega

theorem nanosOf_add (a b : ℕ) : nanosOf (a + b) = nanosOf a + nanosOf b := by
  unfold nanosOf
  omega

theorem nanosOf_sub (a b : ℕ) : nanosOf (a - b) = nanosOf a - nanosOf b := by
  unfold nanosOf
  omega

/-- A period, in nanoseconds. -/
theorem nanosOf_millis (p : QuotaPeriod) : nanosOf p.millis = p.nanos := rfl

/-- A delay of whole milliseconds is the same delay in nanoseconds. -/
theorem ofNanos_nanosOf (millis : ℕ) : Delay.ofNanos (nanosOf millis) = delayOf millis := rfl

section Shows

variable {policy : AttemptPolicy} {receipts receipts' : List (MemoryAttemptReceipt × PgAttemptReceipt)}
  {nowMs nowMs' : ℕ} {row : AttemptRow} {raw : EagerKey}

/-- The state of the machine that a row was left in; a token stands for the generation of the same admission. -/
inductive PgShows (policy : AttemptPolicy) (receipts : List (MemoryAttemptReceipt × PgAttemptReceipt)) (nowMs : ℕ) :
    Option AttemptRow → EagerKey → Prop
  | absent : PgShows policy receipts nowMs none .initial
  /-- A row whose last attempt was a success. -/
  | reset {row : AttemptRow} (hquiet : row.quietMs = policy.quietPeriod.millis) (hlease : row.lease = none)
      (hfailures : row.failures = 0) (hlast : row.lastFailureMs ≤ nowMs) (hretry : row.retryAtMs ≤ nowMs) :
      PgShows policy receipts nowMs (some row) .initial
  | leased {row : AttemptRow} {n untilMs : ℕ} {pair : MemoryAttemptReceipt × PgAttemptReceipt}
      (hquiet : row.quietMs = policy.quietPeriod.millis) (hlease : row.lease = some (untilMs, pair.2.token))
      (huntil : untilMs ≤ nowMs + maxWindowMillis) (hfailures : row.failures = min n u32Max) (hpair : pair ∈ receipts) :
      PgShows policy receipts nowMs (some row) (.leased n pair.1.generation (nanosOf untilMs))
  | failed {row : AttemptRow} {n : ℕ} (hpos : n ≠ 0) (hquiet : row.quietMs = policy.quietPeriod.millis)
      (hlease : row.lease = none) (hfailures : row.failures = min n u32Max) (hlast : row.lastFailureMs ≤ nowMs)
      (hretry : nanosOf row.retryAtMs = nanosOf row.lastFailureMs + policy.delayNanos n) :
      PgShows policy receipts nowMs (some row) (.failed n (nanosOf row.lastFailureMs))

/-- What a row shows, it shows later too, and to whoever knows more receipts. -/
theorem PgShows.mono {entry : Option AttemptRow} (h : PgShows policy receipts nowMs entry raw) (hle : nowMs ≤ nowMs')
    (hreceipts : receipts ⊆ receipts') : PgShows policy receipts' nowMs' entry raw := by
  cases h with
  | absent => exact .absent
  | reset hquiet hlease hfailures hlast hretry => exact .reset hquiet hlease hfailures (hlast.trans hle) (hretry.trans hle)
  | leased hquiet hlease huntil hfailures hpair =>
    exact .leased hquiet hlease (huntil.trans (Nat.add_le_add_right hle _)) hfailures (hreceipts hpair)
  | failed hpos hquiet hlease hfailures hlast hretry =>
    exact .failed hpos hquiet hlease hfailures (hlast.trans hle) hretry

/-- What a cleanup does to a row. -/
def RowCleaned (nowMs : ℕ) (before after : Option AttemptRow) : Prop :=
  after = before ∨ ∃ row, before = some row ∧ row.expiryMs ≤ nowMs ∧ after = none

/-- **The cleanup of a row cannot be seen.** -/
theorem PgShows.cleaned {before after : Option AttemptRow} (h : PgShows policy receipts nowMs before raw)
    (hcleaned : RowCleaned nowMs before after) :
    ∃ raw', PgShows policy receipts nowMs after raw' ∧
      raw'.elapse policy (nanosOf nowMs) = raw.elapse policy (nanosOf nowMs) := by
  rcases hcleaned with rfl | ⟨row, rfl, hexpiry, rfl⟩
  · exact ⟨raw, h, rfl⟩
  · refine ⟨.initial, .absent, ?_⟩
    have hquiet := policy.quietPeriod.pos
    unfold AttemptRow.expiryMs at hexpiry
    cases h with
    | reset hquiet hlease hfailures hlast hretry => rfl
    | @leased _ n untilMs pair hquiet hlease huntil hfailures hpair =>
      -- the lease ran out as a failure, and that failure has been quiet for its period since
      rw [hlease, hquiet] at hexpiry
      have hdue : untilMs + policy.quietPeriod.millis ≤ nowMs := hexpiry
      rw [EagerKey.elapse_leased_of_le (nanosOf_le.2 (by omega)), EagerKey.elapse_failed_of_le]
      · rfl
      · rw [← nanosOf_millis, ← nanosOf_add]
        exact nanosOf_le.2 hdue
    | failed hpos hquiet hlease hfailures hlast hretry =>
      rw [hlease, hquiet] at hexpiry
      rw [EagerKey.elapse_failed_of_le]
      · rfl
      · rw [← nanosOf_millis, ← nanosOf_add]
        exact nanosOf_le.2 hexpiry

/-! ## Admissions -/

/-- No sum of a time and a period is out of range. -/
theorem saturatingAddI64_eq {millis : ℕ} (h : millis < 2 ^ 62 + maxWindowMillis) (p : QuotaPeriod) :
    saturatingAddI64 millis p.millis = millis + p.millis := by
  have hle := p.le_max
  have hwindow : maxWindowMillis < 2 ^ 44 := by decide
  have hi64 : i64Max = 2 ^ 62 + 2 ^ 62 - 1 := by decide
  unfold saturatingAddI64
  exact Nat.min_eq_left (by omega)

/-- What an admission does to a state of the machine that is due. -/
def Decides (policy : AttemptPolicy) (nowMs : ℕ) (receipt : MemoryAttemptReceipt)
    (judged : Except PgCheckError (Except AttemptDenial (ℕ × ℕ))) (due : EagerKey) : Prop :=
  (∃ denial, judged = .ok (.error denial) ∧
      due.tryAdmit policy (nanosOf nowMs) receipt = (.denied denial, due)) ∨
    ∃ n lastFailureMs, judged = .ok (.ok (min n u32Max, lastFailureMs)) ∧
      due.tryAdmit policy (nanosOf nowMs) receipt =
        (.admitted receipt, .leased n receipt.generation (nanosOf (nowMs + policy.lease.millis)))

/-- A key without failures is admitted. -/
theorem decides_initial (receipt : MemoryAttemptReceipt) (lastFailureMs : ℕ) :
    Decides policy nowMs receipt (.ok (.ok (0, lastFailureMs))) .initial := by
  refine Or.inr ⟨0, lastFailureMs, by rw [Nat.zero_min], ?_⟩
  rw [nanosOf_add, nanosOf_millis]
  rfl

/-- The quiet period, and then the backoff. -/
theorem settle_decides {n lastFailureMs retryMs : ℕ} (hnow : lastFailureMs < 2 ^ 62 + maxWindowMillis)
    (hretry : nanosOf retryMs = nanosOf lastFailureMs + policy.delayNanos n) (receipt : MemoryAttemptReceipt) :
    Decides policy nowMs receipt (judge.settle policy nowMs (min n u32Max) lastFailureMs retryMs)
      ((EagerKey.failed n (nanosOf lastFailureMs)).elapse policy (nanosOf nowMs)) := by
  have hquiet : nanosOf (lastFailureMs + policy.quietPeriod.millis) = nanosOf lastFailureMs + policy.quietPeriod.nanos := by
    rw [nanosOf_add, nanosOf_millis]
  unfold judge.settle
  rw [saturatingAddI64_eq hnow]
  split
  · rename_i hdue
    rw [EagerKey.elapse_failed_of_le (hquiet ▸ nanosOf_le.2 hdue)]
    exact decides_initial receipt lastFailureMs
  · rename_i hdue
    rw [EagerKey.elapse_failed_of_lt (hquiet ▸ nanosOf_lt.2 (Nat.not_le.1 hdue))]
    split
    · rename_i hearly
      have hearly' : nanosOf nowMs < nanosOf lastFailureMs + policy.delayNanos n := by
        rw [← hretry, nanosOf_lt]
        exact hearly
      refine Or.inl ⟨_, rfl, ?_⟩
      unfold EagerKey.tryAdmit
      simp only
      rw [if_pos hearly', ← hretry, ← nanosOf_sub, ofNanos_nanosOf]
    · rename_i hlate
      have hlate' : ¬nanosOf nowMs < nanosOf lastFailureMs + policy.delayNanos n := by
        rw [← hretry, nanosOf_lt]
        exact hlate
      refine Or.inr ⟨n, lastFailureMs, rfl, ?_⟩
      unfold EagerKey.tryAdmit
      simp only
      rw [if_neg hlate', nanosOf_add, nanosOf_millis]

/-- Counting and saturating commute. -/
theorem min_succ {failures n : ℕ} (h : failures = min n u32Max) : min (failures + 1) u32Max = min (n + 1) u32Max := by
  omega

/-- The delay of the next failure, as the database and Rust compute it. -/
theorem nanosOf_delay (policy : AttemptPolicy) {n : ℕ} (hfailures : row.failures = min n u32Max) :
    nanosOf (failureDelayMs policy row.failures) = policy.delayNanos (n + 1) ∧
      nanosOf (policy.delay (min (row.failures + 1) u32Max)).asMillis = policy.delayNanos (n + 1) := by
  have hcount := min_succ hfailures
  have hdelay : nanosOf (failureDelayMs policy row.failures) = policy.delayNanos (n + 1) := by
    have hexact := failureDelayMs_delay policy row.failures
    have hnext : nextFailures false row.failures = min (row.failures + 1) u32Max := rfl
    rw [hnext, hcount, policy.delay_eq, policy.delayNanos_min] at hexact
    exact hexact.symm
  refine ⟨hdelay, ?_⟩
  rw [hcount]
  unfold Duration.asMillis
  rw [policy.delay_eq, policy.delayNanos_min, ← hdelay]
  unfold nanosOf
  rw [Nat.mul_div_cancel _ (by norm_num)]

/-- **An admission decides on the row as the machine does.** -/
theorem PgShows.judged (h : PgShows policy receipts nowMs (some row) raw) (hnow : nowMs < 2 ^ 62)
    (receipt : MemoryAttemptReceipt) :
    Decides policy nowMs receipt (judge policy nowMs row) (raw.elapse policy (nanosOf nowMs)) := by
  have hu32 : u32Max = 4294967295 := by decide
  unfold judge
  cases h with
  | reset hquiet hlease hfailures hlast hretry =>
    -- nothing to wait for, whether the row has been quiet or not
    rw [hlease, hfailures, if_neg (Nat.not_lt_zero _)]
    simp only
    rw [EagerKey.elapse_initial]
    unfold judge.settle
    split
    · exact decides_initial receipt _
    · rw [if_neg (Nat.not_lt.2 hretry)]
      exact decides_initial receipt _
  | @leased _ n untilMs pair hquiet hlease huntil hfailures hpair =>
    -- a lease that has run out counts as one more failure, at its deadline
    rw [hlease, if_neg (by omega)]
    simp only
    split
    · rename_i hlive
      rw [EagerKey.elapse_leased_of_lt (nanosOf_lt.2 hlive)]
      refine Or.inl ⟨_, rfl, ?_⟩
      unfold EagerKey.tryAdmit
      simp only
      rw [← nanosOf_sub, ofNanos_nanosOf]
    · rename_i hdue
      have huntil' : untilMs < 2 ^ 62 + maxWindowMillis := by omega
      obtain ⟨-, hdelay⟩ := nanosOf_delay policy hfailures
      -- the sums stay below `BIGINT`, so that nothing saturates
      have hsum : saturatingAddI64 untilMs (policy.delay (min (row.failures + 1) u32Max)).asMillis =
          untilMs + (policy.delay (min (row.failures + 1) u32Max)).asMillis := by
        have hmax := (policy.delayNanos_le (n + 1)).trans policy.maximumDelay.nanos_le
        rw [← hdelay] at hmax
        have hmillis : (policy.delay (min (row.failures + 1) u32Max)).asMillis ≤ maxWindowMillis := nanosOf_le.1 hmax
        have hwindow : maxWindowMillis < 2 ^ 44 := by decide
        have hi64 : i64Max = 2 ^ 62 + 2 ^ 62 - 1 := by decide
        unfold saturatingAddI64
        exact Nat.min_eq_left (by omega)
      have hcount := min_succ hfailures
      rw [EagerKey.elapse_leased_of_le (nanosOf_le.2 (Nat.not_lt.1 hdue)), hsum, hcount]
      refine settle_decides huntil' ?_ receipt
      rw [nanosOf_add, ← hcount, hdelay]
  | @failed _ n hpos hquiet hlease hfailures hlast hretry =>
    rw [hlease, if_neg (by omega)]
    simp only
    rw [hfailures]
    exact settle_decides (by omega) hretry receipt

/-! ## Completions -/

/-- Every generation and every token stands for one admission. -/
structure Distinct (receipts : List (MemoryAttemptReceipt × PgAttemptReceipt)) : Prop where
  generations : ∀ p ∈ receipts, ∀ q ∈ receipts, p.1.generation = q.1.generation → p = q
  tokens : ∀ p ∈ receipts, ∀ q ∈ receipts, p.2.token = q.2.token → p = q

/-- What a row that is completed shows. -/
theorem PgShows.of_completed {n : ℕ} (hquiet : row.quietMs = policy.quietPeriod.millis)
    (hfailures : row.failures = min n u32Max) (success : Bool) :
    PgShows policy receipts nowMs (some (completedRow policy success nowMs row))
      (if success = true then .initial else .failed (n + 1) (nanosOf nowMs)) := by
  cases success with
  | true => exact .reset hquiet rfl rfl le_rfl le_rfl
  | false =>
    obtain ⟨hdelay, -⟩ := nanosOf_delay policy hfailures
    refine .failed (Nat.succ_ne_zero n) hquiet rfl ?_ le_rfl ?_
    · exact min_succ hfailures
    · change nanosOf (nowMs + failureDelayMs policy row.failures) = _
      rw [nanosOf_add, hdelay]
      rfl

/-- A completion that is let through answers as the machine does. -/
theorem PgShows.applied {n : ℕ} (hfailures : row.failures = min n u32Max) (hstorable : row.storable = true)
    (hnow : nowMs < 2 ^ 62) {store : StoreId} {pair : MemoryAttemptReceipt × PgAttemptReceipt}
    (hstore : pair.1.store = store) (hpolicy : pair.2.policy = policy) {deadline transactionId : ℕ}
    (hcompletes : completes row pair.2.token none transactionId nowMs = true) (outcome : AttemptOutcome) :
    ∃ columns, completeRow pair.2.policy pair.2.token (decide (outcome = .success)) none transactionId nowMs row =
        .ok (some (completedRow policy (decide (outcome = .success)) nowMs row, columns)) ∧
      completionResult outcome (some columns) = .ok ((EagerKey.leased n pair.1.generation deadline).complete policy
        (nanosOf nowMs) store pair.1 outcome).1 ∧
      ((EagerKey.leased n pair.1.generation deadline).complete policy (nanosOf nowMs) store pair.1 outcome).2 =
        if decide (outcome = .success) = true then .initial else .failed (n + 1) (nanosOf nowMs) := by
  obtain ⟨columns, completion, hcompleted, hresult, houtcome, hcount, hretry⟩ :=
    completeRow_applied pair.2.policy hstorable hnow hcompletes outcome
  rw [hpolicy] at hcompleted hretry
  refine ⟨columns, hpolicy ▸ hcompleted, ?_, ?_⟩
  · rw [hresult]
    refine congrArg Except.ok ?_
    unfold EagerKey.complete
    simp only
    rw [if_pos ⟨hstore, trivial⟩]
    -- a success starts over, a failure is counted and delays
    by_cases hsuccess : outcome = .success
    · rw [dif_pos hsuccess]
      rw [decide_eq_true hsuccess] at hcount hretry
      have hnext : nextFailures true row.failures = 0 := if_pos rfl
      have hdelayed : delayMs true policy.initialDelay.millis policy.maximumDelay.millis row.failures = 0 := if_pos rfl
      rw [hnext] at hcount
      rw [hdelayed] at hretry
      exact congrArg _ (completion_eq houtcome hcount hretry)
    · rw [dif_neg hsuccess]
      rw [decide_eq_false hsuccess] at hcount hretry
      have hnext : nextFailures false row.failures = min (row.failures + 1) u32Max := rfl
      have hdelayed : delayOf (failureDelayMs policy row.failures) = .ofNanos (policy.delayNanos (n + 1)) := by
        rw [← (nanosOf_delay policy hfailures).1, ofNanos_nanosOf]
      rw [hnext, min_succ hfailures] at hcount
      exact congrArg _ (completion_eq houtcome hcount (hretry.trans hdelayed))
  · unfold EagerKey.complete
    simp only
    rw [if_pos ⟨hstore, trivial⟩]
    by_cases hsuccess : outcome = .success
    · rw [dif_pos hsuccess, if_pos (decide_eq_true hsuccess)]
    · rw [dif_neg hsuccess, if_neg (by rw [decide_eq_false hsuccess]; exact Bool.false_ne_true)]

/-- A completion that the row does not let through is stale for the machine. -/
theorem PgShows.stale {entry : Option AttemptRow} (h : PgShows policy receipts nowMs entry raw)
    (hdistinct : Distinct receipts) {store : StoreId} {pair : MemoryAttemptReceipt × PgAttemptReceipt}
    (hpair : pair ∈ receipts) {transactionId : ℕ}
    (hnot : ∀ row, entry = some row → ¬completes row pair.2.token none transactionId nowMs = true)
    (outcome : AttemptOutcome) :
    (raw.elapse policy (nanosOf nowMs)).complete policy (nanosOf nowMs) store pair.1 outcome =
      (.stale, raw.elapse policy (nanosOf nowMs)) := by
  cases hdue : raw.elapse policy (nanosOf nowMs) with
  | initial => rfl
  | failed n time => rfl
  | leased n generation deadline =>
    obtain ⟨rfl, hlive⟩ := EagerKey.of_elapse_leased hdue
    cases h with
    | @leased row _ untilMs held hquiet hlease huntil hfailures hheld =>
      unfold EagerKey.complete
      simp only
      rw [if_neg]
      rintro ⟨-, hgeneration⟩
      have hsame : held = pair := hdistinct.generations held hheld pair hpair hgeneration
      refine hnot row rfl (completes_iff.2 ⟨untilMs, hsame ▸ hlease, Or.inl ⟨rfl, nanosOf_lt.1 hlive⟩⟩)

/-- **A completion does to the row what the machine does.** -/
theorem PgShows.complete {rows : AttemptRows} {store : StoreId} {pair : MemoryAttemptReceipt × PgAttemptReceipt}
    [Sha2] (h : PgShows policy receipts nowMs (rows.lookup pair.2.key) raw) (hdistinct : Distinct receipts)
    (hpair : pair ∈ receipts) (hstore : pair.1.store = store) (hpolicy : pair.2.policy = policy)
    (hstorable : ∀ key row, rows.lookup key = some row → row.storable = true) (hnow : nowMs < 2 ^ 62)
    (outcome : AttemptOutcome) :
    (PgAttempts.complete nowMs pair.2 outcome rows).1 = .ok ((raw.elapse policy (nanosOf nowMs)).complete policy
        (nanosOf nowMs) store pair.1 outcome).1 ∧
      (∃ raw', PgShows policy receipts nowMs
          ((PgAttempts.complete nowMs pair.2 outcome rows).2.lookup pair.2.key) raw' ∧
        raw'.elapse policy (nanosOf nowMs) = ((raw.elapse policy (nanosOf nowMs)).complete policy (nanosOf nowMs) store
          pair.1 outcome).2) ∧
      (∀ key, key ≠ pair.2.key →
        (PgAttempts.complete nowMs pair.2 outcome rows).2.lookup key = rows.lookup key) ∧
      ∀ key row, (PgAttempts.complete nowMs pair.2 outcome rows).2.lookup key = some row → row.storable = true := by
  -- no row, or one that does not let the token through: nothing is written
  have hstale : (∀ row, rows.lookup pair.2.key = some row → ¬completes row pair.2.token none 0 nowMs = true) →
      PgAttempts.complete nowMs pair.2 outcome rows = (.ok .stale, rows) := by
    intro hnot
    unfold PgAttempts.complete
    split
    · rfl
    · rename_i row hrow
      have hnone : completeRow pair.2.policy pair.2.token (decide (outcome = .success)) none 0 nowMs row = .ok none := by
        unfold completeRow
        rw [if_neg (hnot row hrow)]
      rw [hnone]
      rfl
  by_cases hcompletes : ∃ row, rows.lookup pair.2.key = some row ∧ completes row pair.2.token none 0 nowMs = true
  · obtain ⟨row, hrow, hcompletes⟩ := hcompletes
    obtain ⟨untilMs, hlease, hlive⟩ := completes_iff.1 hcompletes
    have hlive : nowMs < untilMs := by
      rcases hlive with ⟨-, hlive⟩ | hnone
      · exact hlive
      · cases hnone
    rw [hrow] at h
    cases h with
    | reset hquiet hnone => rw [hlease] at hnone; cases hnone
    | failed hpos hquiet hnone => rw [hlease] at hnone; cases hnone
    | @leased _ n untilMs' held hquiet hlease' huntil hfailures hheld =>
      -- the token names the admission
      rw [hlease] at hlease'
      obtain ⟨rfl, htoken⟩ := Prod.mk.inj (Option.some.inj hlease')
      obtain rfl : pair = held := hdistinct.tokens pair hpair held hheld htoken
      obtain ⟨columns, hcompleted, hresult, hafter⟩ := @PgShows.applied policy nowMs row n hfailures
        (hstorable _ row hrow) hnow store pair hstore hpolicy (nanosOf untilMs) 0 hcompletes outcome
      have hdone : PgAttempts.complete nowMs pair.2 outcome rows =
          (.ok ((EagerKey.leased n pair.1.generation (nanosOf untilMs)).complete policy (nanosOf nowMs) store pair.1
            outcome).1, rows.insert pair.2.key (completedRow policy (decide (outcome = .success)) nowMs row)) := by
        unfold PgAttempts.complete
        rw [hrow]
        simp only
        rw [hcompleted]
        simp only
        rw [hresult]
      rw [EagerKey.elapse_leased_of_lt (nanosOf_lt.2 hlive), hdone]
      refine ⟨rfl, ⟨if decide (outcome = .success) = true then .initial else .failed (n + 1) (nanosOf nowMs), ?_, ?_⟩,
        fun key hne => ?_, fun key row' hrow' => ?_⟩
      · rw [Finmap.lookup_insert]
        exact .of_completed hquiet hfailures _
      · -- the row shows the machine's own state, which has just been left and is due later
        rw [hafter]
        split
        · rfl
        · refine EagerKey.elapse_failed_of_lt ?_
          have hpos := policy.quietPeriod.nanos_pos
          omega
      · rw [Finmap.lookup_insert_if, if_neg hne]
      · rw [Finmap.lookup_insert_if] at hrow'
        split at hrow'
        · cases hrow'
          exact completedRow_storable policy (hstorable _ row hrow) hnow _
        · exact hstorable key row' hrow'
  · have hnot : ∀ row, rows.lookup pair.2.key = some row → ¬completes row pair.2.token none 0 nowMs = true :=
      fun row hrow hyes => hcompletes ⟨row, hrow, hyes⟩
    rw [hstale hnot, h.stale hdistinct hpair hnot outcome]
    have helapsed : (raw.elapse policy (nanosOf nowMs)).elapse policy (nanosOf nowMs) = raw.elapse policy (nanosOf nowMs) :=
      EagerKey.elapse_elapse le_rfl _
    exact ⟨rfl, ⟨raw, h, rfl⟩, fun _ _ => rfl, hstorable⟩

/-! ## Whole admissions -/

/-- An admission that neither finds a full shard nor fails: it denies, and leaves the rows, or it writes the row of its
key after the cleanup. -/
theorem tryAdmit_cases [Sha2] {config : PostgresConfig} {run : AdmitRun} {subject : AttemptSubject}
    {rows rows' : AttemptRows} {result : AttemptAdmission PgAttemptReceipt}
    (h : tryAdmit config run subject rows = (.ok result, rows')) (hserved : result ≠ .denied .storageCapacity) :
    (∃ row denial, (cleanup run.sweep (capacityShard subject.key) rows).lookup subject.key = some row ∧
        judge subject.policy run.nowMs row = .ok (.error denial) ∧ result = .denied denial ∧ rows' = rows) ∨
      ∃ written, written.storable = true ∧ result = .admitted ⟨subject.policy, subject.subject, run.token⟩ ∧
        rows' = (cleanup run.sweep (capacityShard subject.key) rows).insert subject.key written ∧
        ((∃ row failures lastFailureMs,
            (cleanup run.sweep (capacityShard subject.key) rows).lookup subject.key = some row ∧
            judge subject.policy run.nowMs row = .ok (.ok (failures, lastFailureMs)) ∧
            written = updatedRow subject.policy failures lastFailureMs run.nowMs run.token row) ∨
          (cleanup run.sweep (capacityShard subject.key) rows).lookup subject.key = none ∧
            ∃ slot, written = insertedRow subject.policy slot run.nowMs run.token) := by
  unfold tryAdmit admitTransaction at h
  simp only at h
  cases hrow : (cleanup run.sweep (capacityShard subject.key) rows).lookup subject.key with
  | some row =>
    rw [hrow] at h
    simp only at h
    cases hjudge : judge subject.policy run.nowMs row with
    | error error =>
      rw [hjudge] at h
      cases h
    | ok judged =>
      rw [hjudge] at h
      cases judged with
      | error denial =>
        cases h
        exact Or.inl ⟨row, denial, rfl, hjudge, rfl, rfl⟩
      | ok next =>
        obtain ⟨failures, lastFailureMs⟩ := next
        simp only [bind, Except.bind] at h
        by_cases hstorable : (updatedRow subject.policy failures lastFailureMs run.nowMs run.token row).storable = true
        · rw [if_pos hstorable] at h
          cases h
          exact Or.inr ⟨_, hstorable, rfl, rfl, Or.inl ⟨row, failures, lastFailureMs, rfl, hjudge, rfl⟩⟩
        · rw [if_neg hstorable] at h
          cases h
  | none =>
    rw [hrow] at h
    simp only at h
    -- no row: the shard needs room, and a slot
    by_cases hfull : config.maximumRowsPerShard ≤
        occupancy (capacityShard subject.key) (cleanup run.sweep (capacityShard subject.key) rows)
    · rw [if_pos hfull] at h
      cases h
      exact absurd rfl hserved
    · rw [if_neg hfull] at h
      cases hslot : freeSlot (capacityShard subject.key) config.maximumRowsPerShard
          (cleanup run.sweep (capacityShard subject.key) rows) with
      | none =>
        rw [hslot] at h
        cases h
        exact absurd rfl hserved
      | some slot =>
        rw [hslot] at h
        simp only at h
        by_cases hinsertable : insertable subject.key (insertedRow subject.policy slot run.nowMs run.token)
            (cleanup run.sweep (capacityShard subject.key) rows) = true
        · rw [if_pos hinsertable] at h
          cases h
          refine Or.inr ⟨_, ?_, rfl, rfl, Or.inr ⟨rfl, slot, rfl⟩⟩
          unfold insertable at hinsertable
          simp only [Bool.and_eq_true] at hinsertable
          exact hinsertable.1.1
        · rw [if_neg hinsertable] at h
          cases h

/-- What the cleanup of an admission does to the row of a key. -/
theorem cleanup_rowCleaned {sweep : Sweep} {shard : CapacityShard} {rows : AttemptRows} {key : AttemptKey} :
    RowCleaned sweep.sampledAtMs (rows.lookup key) ((cleanup sweep shard rows).lookup key) := by
  rw [lookup_cleanup]
  split
  · rename_i hselected
    obtain ⟨row, hrow, -, hexpiry, -⟩ := mem_cleanupSelect hselected
    exact Or.inr ⟨row, hrow, hexpiry, rfl⟩
  · exact Or.inl rfl

/-- What had been quiet then has been quiet now. -/
theorem RowCleaned.mono {before after : Option AttemptRow} (h : RowCleaned nowMs before after) (hle : nowMs ≤ nowMs') :
    RowCleaned nowMs' before after := by
  rcases h with rfl | ⟨row, rfl, hexpiry, rfl⟩
  · exact Or.inl rfl
  · exact Or.inr ⟨row, rfl, hexpiry.trans hle, rfl⟩

/-- The quiet period is stored with the row. -/
theorem PgShows.quietMs_eq (h : PgShows policy receipts nowMs (some row) raw) :
    row.quietMs = policy.quietPeriod.millis := by
  cases h with
  | reset hquiet => exact hquiet
  | leased hquiet => exact hquiet
  | failed hpos hquiet => exact hquiet

/-- **An admission does to the row what the machine does.** -/
theorem PgShows.admission [Sha2] {config : PostgresConfig} {sweep : Sweep} {token : LeaseToken} {subject : AttemptSubject}
    {rows rows' : AttemptRows} {result : AttemptAdmission PgAttemptReceipt}
    (h : PgShows policy receipts nowMs (rows.lookup subject.key) raw) (hpolicy : subject.policy = policy)
    (hsampled : sweep.sampledAtMs ≤ nowMs) (hnow : nowMs < 2 ^ 62)
    (hrun : tryAdmit config ⟨sweep, nowMs, token⟩ subject rows = (.ok result, rows')) (hserved : result ≠ .denied .storageCapacity)
    (receipt : MemoryAttemptReceipt) :
    (∃ denial, result = .denied denial ∧ rows' = rows ∧
        (raw.elapse policy (nanosOf nowMs)).tryAdmit policy (nanosOf nowMs) receipt =
          (.denied denial, raw.elapse policy (nanosOf nowMs))) ∨
      ∃ n written, result = .admitted ⟨subject.policy, subject.subject, token⟩ ∧ written.storable = true ∧
        rows' = (cleanup sweep (capacityShard subject.key) rows).insert subject.key written ∧
        PgShows policy (receipts ++ [(receipt, ⟨subject.policy, subject.subject, token⟩)]) nowMs (some written)
          (.leased n receipt.generation (nanosOf (nowMs + policy.lease.millis))) ∧
        (raw.elapse policy (nanosOf nowMs)).tryAdmit policy (nanosOf nowMs) receipt =
          (.admitted receipt, .leased n receipt.generation (nanosOf (nowMs + policy.lease.millis))) := by
  have hcleaned : RowCleaned nowMs (rows.lookup subject.key)
      ((cleanup sweep (capacityShard subject.key) rows).lookup subject.key) :=
    cleanup_rowCleaned.mono hsampled
  obtain ⟨raw', hraw, helapse⟩ := h.cleaned hcleaned
  have hlease : saturatingAddI64 nowMs policy.lease.millis = nowMs + policy.lease.millis :=
    saturatingAddI64_eq (by omega) _
  -- whatever was there before, the written row shows a lease to the end of its period
  have hleased : ∀ {written : AttemptRow} {n : ℕ}, written.quietMs = policy.quietPeriod.millis →
      written.failures = min n u32Max →
      written.lease = some (saturatingAddI64 nowMs policy.lease.millis, token) →
      PgShows policy (receipts ++ [(receipt, ⟨subject.policy, subject.subject, token⟩)]) nowMs (some written)
        (.leased n receipt.generation (nanosOf (nowMs + policy.lease.millis))) := by
    intro written n hquiet hfailures hlease'
    rw [hlease] at hlease'
    have hmem : (receipt, ⟨subject.policy, subject.subject, token⟩) ∈
        receipts ++ [(receipt, (⟨subject.policy, subject.subject, token⟩ : PgAttemptReceipt))] :=
      List.mem_append_right _ (List.mem_singleton_self _)
    exact .leased hquiet hlease' (Nat.add_le_add_left policy.lease.le_max _) hfailures hmem
  rw [← helapse]
  rcases tryAdmit_cases hrun hserved with
    ⟨row, denial, hrow, hjudge, rfl, rfl⟩ | ⟨written, hstorable, rfl, rfl, ⟨row, failures, lastFailureMs, hrow, hjudge, hwritten⟩ | ⟨hrow, slot, hwritten⟩⟩
  · rw [hrow] at hraw
    rw [hpolicy] at hjudge
    rcases hraw.judged hnow receipt with ⟨denial', hdenied, hmachine⟩ | ⟨n, lastFailureMs, hgranted, -⟩
    · rw [hjudge] at hdenied
      cases hdenied
      exact Or.inl ⟨denial, rfl, rfl, hmachine⟩
    · rw [hjudge] at hgranted
      cases hgranted
  · rw [hrow] at hraw
    rw [hpolicy] at hjudge
    rcases hraw.judged hnow receipt with ⟨denial', hdenied, -⟩ | ⟨n, lastFailureMs', hgranted, hmachine⟩
    · rw [hjudge] at hdenied
      cases hdenied
    · rw [hjudge] at hgranted
      obtain ⟨hfailures, -⟩ := Prod.mk.inj (Except.ok.inj (Except.ok.inj hgranted))
      refine Or.inr ⟨n, written, rfl, hstorable, rfl, hleased ?_ ?_ ?_, hmachine⟩
      · rw [hwritten]
        exact hraw.quietMs_eq
      · rw [hwritten]
        exact hfailures
      · rw [hwritten, hpolicy]
        rfl
  · rw [hrow] at hraw
    cases hraw
    rcases @decides_initial policy nowMs receipt 0 with ⟨denial, hdenied, -⟩ | ⟨n, lastFailureMs, hgranted, hmachine⟩
    · cases hdenied
    · obtain ⟨hfailures, -⟩ := Prod.mk.inj (Except.ok.inj (Except.ok.inj hgranted))
      refine Or.inr ⟨n, written, rfl, hstorable, rfl, hleased ?_ ?_ ?_, hmachine⟩
      · rw [hwritten, hpolicy]
        rfl
      · rw [hwritten, ← hfailures]
        rfl
      · rw [hwritten, hpolicy]
        rfl

end Shows

end PgAttempts

end Runlimit
