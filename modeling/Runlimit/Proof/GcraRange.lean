import Runlimit.Proof.Representation
import Runlimit.Proof.GcraRate

/-!
# The supported time range of GCRA

Below `2 ^ 64` milliseconds no checked operation of `gcra::evaluate` fails. The policy
constructor bounds a full refill by the portable window, so an arrival time written at any
earlier time is at most that window ahead of the clock, and every product and sum fits.

* `Gcra.evaluate_inRange`: one evaluation, from any arrival time an earlier evaluation can have
  written;
* `Bounded.answer_exact`: one request, from shards whose entries expire with their arrival time;
* `gcra_never_overflows`: whole runs of a `GcraStore`.
-/

namespace Runlimit

namespace Gcra

variable [Sha2] {check : Check GcraPolicy} {now : ℕ} {tat : Option ℕ}

/-- What a transition within the supported range returns. -/
def InRange (check : Check GcraPolicy) (now : ℕ) : QuotaEvaluation → Prop
  | .allowed pending =>
    pending.allowance.available ≤ check.policy.burstCapacity.get - check.cost ∧
    Duration.fromMillis 1 ≤ pending.allowance.replenishesAfter.duration ∧
    pending.allowance.replenishesAfter.duration ≤ Duration.fromMillis maxWindowMillis ∧
    pending.tatScaled ≤ now * check.policy.quota.get + check.policy.burstCapacity.get * check.policy.period.millis
  | .denied denial =>
    Duration.fromMillis 1 ≤ denial.retryAfter.duration ∧
    denial.retryAfter.duration ≤ Duration.fromMillis maxWindowMillis

/-- What an allowed check leaves of the burst capacity does not include its own cost. -/
theorem availableUnits_le_sub (check : Check GcraPolicy) (now : ℕ) (tat : Option ℕ) :
    availableUnits check now tat ≤ check.policy.burstCapacity.get - check.cost := by
  -- the candidate is at least the clock and the cost
  have hle : ceiling check now - candidate check now tat ≤
      (check.policy.burstCapacity.get - check.cost) * check.policy.period.millis := by
    have hactive := le_max_right (tat.getD (scaledNow check now)) (scaledNow check now)
    rw [Nat.sub_mul]
    unfold ceiling candidate burstSpan
    omega
  exact (Nat.div_le_div_right hle).trans (Nat.mul_div_cancel _ check.policy.period.pos).le

/-- A check that is denied has to wait. -/
theorem retryMillis_pos (h : ceiling check now < candidate check now tat) : 0 < retryMillis check now tat := by
  unfold retryMillis
  rw [lt_divCeil_iff (quota_pos check), Nat.zero_mul]
  exact Nat.sub_pos_of_lt h

/-- An arrival time within the burst span of an earlier time is within the portable window. -/
theorem tat_le_window (check : Check GcraPolicy) {t n : ℕ} (hn : n ≤ now)
    (ht : t ≤ n * check.policy.quota.get + check.policy.burstCapacity.get * check.policy.period.millis) :
    t ≤ (now + maxWindowMillis) * check.policy.quota.get := by
  have hceiling := ceiling_le check n
  have hmono : (n + maxWindowMillis) * check.policy.quota.get ≤ (now + maxWindowMillis) * check.policy.quota.get :=
    Nat.mul_le_mul_right _ (Nat.add_le_add_right hn _)
  exact (ht.trans hceiling).trans hmono

/-- **One evaluation** stays in range, from any arrival time within the portable window. -/
theorem evaluate_inRange (hnow : now < 2 ^ 64)
    (htat : ∀ t ∈ tat, t ≤ (now + maxWindowMillis) * check.policy.quota.get) :
    ∃ evaluation, evaluate check now tat = .ok evaluation ∧ InRange check now evaluation := by
  refine ⟨_, evaluate_exact_of_lt hnow htat, ?_⟩
  unfold exact
  split
  · rename_i hlt
    exact ⟨Duration.fromMillis_mono (retryMillis_pos hlt), Duration.fromMillis_mono (retryMillis_le htat)⟩
  · rename_i hle
    have hle := Nat.not_lt.1 hle
    exact ⟨availableUnits_le_sub check now tat, Duration.fromMillis_mono (replenishMillis_pos check now tat),
      Duration.fromMillis_mono (replenishMillis_le hle), hle⟩

end Gcra

/-! ## Entries expire with their arrival time -/

/-- An entry expires when the clock reaches its arrival time, at the rate of every policy that has
its key. -/
def ExpiresWithTat [Sha2] (known : Set GcraPolicy) (key : CounterKey) (entry : StoredEntry GcraEntry) : Prop :=
  ∀ p ∈ known, p.fingerprint = key.fingerprint →
    entry.expiresAtMillis = divCeil entry.value.tatScaled p.quota.get

section Runs

variable [Sha2] {config : MemoryStoreConfig} {known : Set GcraPolicy}

/-- What an evaluation stores expires with its arrival time, whichever policy of that key asks. -/
theorem expiresWithTat_verdict (hfree : Set.InjOn Sha2.sha256 (GcraPolicy.preimage '' known))
    {c : Check GcraPolicy} (hc : c.policy ∈ known) {now : ℕ} {live : Option (StoredEntry GcraEntry)}
    {entry : StoredEntry GcraEntry} {allowance : Allowance}
    (h : gcra.evaluate c now live = .ok (.allowed entry allowance)) :
    ExpiresWithTat known c.counterKey entry := by
  intro p hp hfingerprint
  have hpreimage := hfree (Set.mem_image_of_mem _ hp) (Set.mem_image_of_mem _ hc) hfingerprint
  obtain ⟨-, -, hquota, -, -⟩ := GcraPolicy.preimage_inj hpreimage
  rw [hquota]
  exact (gcra_allowed h).2.2

namespace Bounded

variable {data : Data config GcraEntry} {now : ℕ}

/-- The live entry of a key is within the portable window, so its evaluation does not overflow. -/
theorem evaluate_exact (hd : Inv data) (hstored : Stored (ExpiresWithTat known) data) {c : Check GcraPolicy}
    (hc : c.policy ∈ known) (hobserved : observed data (c.shard config) ≤ now) (hnow : now < 2 ^ 64) :
    ∃ verdict, gcra.evaluate c now (entry now data c) = .ok verdict := by
  have htat : ∀ t ∈ (entry now data c).map (·.value.tatScaled),
      t ≤ (now + maxWindowMillis) * c.policy.quota.get := by
    intro t ht
    obtain ⟨e, he, rfl⟩ := Option.mem_map.1 ht
    -- an entry expires within the portable window, and with it its arrival time
    obtain ⟨-, hexpires⟩ := entry_bound hd hobserved e he
    have hlookup := (Shard.live_eq_some.1 he).1
    rw [hstored _ _ e hlookup c.policy hc rfl, divCeil_le_iff c.policy.quota.pos] at hexpires
    exact hexpires
  refine ⟨gcraVerdict (Gcra.exact c now ((entry now data c).map (·.value.tatScaled))), ?_⟩
  change (Gcra.evaluate c now _).map gcraVerdict = _
  rw [Gcra.evaluate_exact_of_lt hnow htat]
  rfl

/-- **One request** does not overflow. -/
theorem answer_exact (hd : Inv data) (hstored : Stored (ExpiresWithTat known) data) {request : Request GcraPolicy}
    (hrequest : ∀ c ∈ request.checks, c.policy ∈ known)
    (hobserved : ∀ i ∈ touched config request.checks, observed data i ≤ now) (hnow : now < 2 ^ 64) :
    (answer gcra now request data).1.overflowed = false := by
  have hverdict : ∀ c ∈ request.checks, ∃ verdict, gcra.evaluate c now (entry now data c) = .ok verdict :=
    fun c hc => evaluate_exact hd hstored (hrequest c hc) (hobserved _ (mem_touched.2 ⟨c, hc, rfl⟩)) hnow
  cases request with
  | check c =>
    obtain ⟨verdict, hev⟩ := hverdict c List.mem_cons_self
    unfold answer check
    simp only [hev]
    cases verdict with
    | denied denial => rfl
    | allowed e a =>
      simp only
      split
      · rfl
      · rfl
  | checkAll checks =>
    have hverdict : ∀ c ∈ checks, ∃ verdict, gcra.evaluate c now (entry now data c) = .ok verdict := hverdict
    unfold answer checkAll
    simp only
    cases validateBatch checks config.maxBatchSize with
    | error e => rfl
    | ok u =>
      cases hrouted : overfull config checks with
      | some e =>
        obtain ⟨i, -, rfl⟩ := Option.map_eq_some_iff.1 hrouted
        rfl
      | none =>
        obtain ⟨verdicts, hverdicts⟩ := evaluateAll_total hverdict
        simp only [hverdicts]
        cases firstDenial checks.length now
            (cleanup (budget config checks) (touched config checks) now data) verdicts with
        | none => rfl
        | some outcome => rfl

end Bounded

/-- The arithmetic left its exact range in an admission. -/
def StoreResponse.overflowed : StoreResponse → Bool
  | .admission response => response.overflowed
  | .clear _ => false
  | .recovered _ => false

namespace GcraStore

/-- The readings of the clock a request brings are in the supported range. -/
def InTime (request : StoreRequest GcraPolicy) : Prop :=
  ∀ reading call, request = .tryAdmit (.ok reading) call → reading.asMillis < 2 ^ 64

/-- What a run in the supported range keeps. -/
structure Supported (known : Set GcraPolicy) (shards : BoundedShards config GcraEntry) : Prop where
  represents : shards.Represents (ExpiresWithTat known)
  observed_lt : ∀ i, shards.observed i < 2 ^ 64

/-- A new store has read no clock. -/
theorem Supported.new : Supported known (BoundedShards.new config) where
  represents := .new
  observed_lt _ := by
    change 0 < 2 ^ 64
    norm_num

/-- **No request overflows**, and none leaves the supported range. -/
theorem perform_supported (hfree : Set.InjOn Sha2.sha256 (GcraPolicy.preimage '' known))
    (request : StoreRequest GcraPolicy) (shards : BoundedShards config GcraEntry)
    (hrequest : (∀ c ∈ request.checks, c.policy ∈ known) ∧ InTime request) (h : Supported known shards) :
    (perform request shards).1.overflowed = false ∧ Supported known (perform request shards).2 := by
  have hstep := perform_step h.represents.inv request
  generalize (perform request shards).1 = response, (perform request shards).2 = shards' at hstep
  refine ⟨?_, hstep.represents (fun c hc now live e a => expiresWithTat_verdict hfree (hrequest.1 c hc)) h.represents,
    hstep.observed_lt h.represents hrequest.2 h.observed_lt⟩
  cases hstep with
  | failed _ hexact => exact hexact
  | @unwound _ _ response _ hresponse =>
    -- a call that unwinds returns nothing
    change response.overflowed = false
    unfold Response.ending at hresponse
    split at hresponse
    all_goals first
      | rfl
      | cases hresponse
  | @evaluated reading call =>
    -- the clamped clock of the request is in the range of its shards and its own
    exact Bounded.answer_exact h.represents.inv h.represents.stored hrequest.1
      (fun i hi => le_clampedMillis hi) (clampedMillis_lt (hrequest.2 reading call rfl) h.observed_lt)
  | cleared => rfl
  | uncleared => rfl
  | recovered => rfl

end GcraStore

end Runs

/-- **GCRA arithmetic never overflows in the supported time range.** One evaluation, from no arrival
time or from any that is within the burst span of an earlier time, returns bounded values; and no
run of a store whose clock stays below `2 ^ 64` milliseconds answers with an overflow. -/
theorem gcra_never_overflows [Sha2] (config : MemoryStoreConfig) :
    (∀ (check : Check GcraPolicy) (now : ℕ) (tat : Option ℕ), now < 2 ^ 64 →
      (∀ t ∈ tat, ∃ n ≤ now, t ≤ n * check.policy.quota.get +
        check.policy.burstCapacity.get * check.policy.period.millis) →
      ∃ evaluation, Gcra.evaluate check now tat = .ok evaluation ∧ Gcra.InRange check now evaluation) ∧
    ∀ requests : List (StoreRequest GcraPolicy),
      Set.InjOn Sha2.sha256 (GcraPolicy.preimage '' storePolicies requests) →
      (∀ request ∈ requests, GcraStore.InTime request) →
      ∀ response ∈ Machine.outputs (@GcraStore.perform _ config) (BoundedShards.new config) requests,
        response.overflowed = false := by
  refine ⟨?_, ?_⟩
  · intro check now tat hnow htat
    refine Gcra.evaluate_inRange hnow ?_
    intro t ht
    obtain ⟨n, hn, hle⟩ := htat t ht
    exact Gcra.tat_le_window check hn hle
  · intro requests hfree htime
    refine Machine.outputs_forall (GcraStore.perform_supported hfree) GcraStore.Supported.new ?_
    intro request hrequest
    exact ⟨fun c hc => ⟨request, hrequest, c, hc, rfl⟩, htime request hrequest⟩

/-- The last millisecond of the range. -/
def lastMillisecond : Duration := Duration.fromMillis (2 ^ 64 - 1)

/-- Checks at the end of the range, from a full bucket and from the latest arrival time a check there
can have left, and a run that ends there. -/
theorem gcra_never_overflows_last :
    letI := vectorSha2
    (∃ evaluation, Gcra.evaluate (Check.new readPolicy (Digest.replicate 1)) (2 ^ 64 - 1)
        (some ((2 ^ 64 - 1) * 10 + 20 * 1000)) = .ok evaluation ∧
      Gcra.InRange (Check.new readPolicy (Digest.replicate 1)) (2 ^ 64 - 1) evaluation) ∧
    ∀ response ∈ Machine.outputs (@GcraStore.perform _ pairConfig) (BoundedShards.new pairConfig)
        [.tryAdmit (.ok readCall.reading) readCall.request, .tryAdmit (.ok lastMillisecond) readWriteCall.request],
      response.overflowed = false := by
  let := vectorSha2
  obtain ⟨hevaluate, hrun⟩ := gcra_never_overflows pairConfig
  refine ⟨hevaluate _ _ _ (by norm_num) ?_, hrun _ ?_ ?_⟩
  · rintro t ⟨⟩
    exact ⟨2 ^ 64 - 1, le_rfl, by decide⟩
  · refine vector_gcra_injOn.mono (Set.image_mono ?_)
    rintro p ⟨request, hrequest, c, hc, rfl⟩
    rcases List.mem_pair.1 hrequest with rfl | rfl
    · rw [List.mem_singleton.1 hc]
      exact Or.inl rfl
    · rcases List.mem_pair.1 hc with rfl | rfl
      · exact Or.inl rfl
      · exact Or.inr rfl
  · intro request hrequest reading call hcall
    rcases List.mem_pair.1 hrequest with rfl | rfl
    · cases hcall
      decide
    · cases hcall
      decide

end Runlimit
