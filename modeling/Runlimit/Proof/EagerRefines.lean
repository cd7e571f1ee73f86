import Runlimit.Proof.AttemptSteps
import Runlimit.Proof.Constructors
import Runlimit.Proof.Encoding
import Runlimit.Spec.Eager

/-!
# The attempt limiter is the eager machine

The stored entry of a key *shows* a state of the eager machine that may be behind the clock: the
machine's own state is that one with the transitions that are due. `cleanup` deletes an entry
only when they lead to the initial state, and `reconcile` writes them down, so neither can be
seen. Main results:

* `delay_eq`: the saturating arithmetic of `AttemptPolicy::delay` is the doubling delay;
* `Shows.cleaned`, `Shows.reconcile`, `Shows.deny_eq`: one lemma for each of the three functions;
* `attempts_eager`: every response of a run is the one of the machine of its key.
-/

namespace Runlimit

/-! ## Delays -/

namespace QuotaPeriod

/-- The longest period, in nanoseconds. -/
def maxPeriodNanos : ℕ := maxWindowMillis * 10 ^ 6

/-- No period is longer than the longest window. -/
theorem nanos_le (p : QuotaPeriod) : p.nanos ≤ maxPeriodNanos := Nat.mul_le_mul_right _ p.le_max

theorem nanos_pos (p : QuotaPeriod) : 0 < p.nanos := Nat.mul_pos p.pos (by norm_num)

theorem duration_nanos (p : QuotaPeriod) : p.duration.nanos = p.nanos := p.duration_millis

end QuotaPeriod

namespace AttemptPolicy

variable (policy : AttemptPolicy)

/-- The delay never exceeds its maximum. -/
theorem delayNanos_le (failures : ℕ) : policy.delayNanos failures ≤ policy.maximumDelay.nanos := by
  unfold delayNanos
  split
  · exact Nat.zero_le _
  · exact min_le_right _ _

/-- From some point on the delay is the maximum. -/
theorem delayNanos_of_le {failures : ℕ} (h : 65 ≤ failures) :
    policy.delayNanos failures = policy.maximumDelay.nanos := by
  have hmaximum := policy.maximumDelay.nanos_le
  have hinitial := policy.initialDelay.nanos_pos
  have hpow : 2 ^ 64 ≤ 2 ^ (failures - 1) := Nat.pow_le_pow_right (by norm_num) (by omega)
  have hlarge : QuotaPeriod.maxPeriodNanos ≤ 2 ^ 64 := by decide
  unfold delayNanos
  rw [if_neg (by omega)]
  refine Nat.min_eq_right ?_
  calc policy.maximumDelay.nanos ≤ 2 ^ (failures - 1) := hmaximum.trans (hlarge.trans hpow)
    _ ≤ policy.initialDelay.nanos * 2 ^ (failures - 1) := Nat.le_mul_of_pos_left _ hinitial

/-- A saturated count gives the same delay. -/
theorem delayNanos_min (failures : ℕ) : policy.delayNanos (min failures u32Max) = policy.delayNanos failures := by
  by_cases h : failures ≤ u32Max
  · rw [Nat.min_eq_left h]
  · have hlarge : 65 ≤ u32Max := by decide
    rw [Nat.min_eq_right (by omega), delayNanos_of_le policy hlarge, delayNanos_of_le policy (by omega)]

/-- **The delay of the source is the doubling delay.** -/
theorem delay_eq (failures : ℕ) : (policy.delay failures).nanos = policy.delayNanos failures := by
  by_cases h0 : failures = 0
  · subst h0
    rfl
  · have hmaximum := policy.maximumDelay.le_max
    have hu64 : maxWindowMillis ≤ u64Max := by decide
    have hmillis : min (min (policy.initialDelay.millis * (checkedShlOne (failures - 1)).getD u64Max) u64Max)
        policy.maximumDelay.millis = min (policy.initialDelay.millis * 2 ^ (failures - 1))
          policy.maximumDelay.millis := by
      unfold checkedShlOne
      split
      · rw [Option.getD_some]
        omega
      · -- a shift of 64 or more has passed every maximum
        rename_i hshift
        have hpow : 2 ^ 64 ≤ 2 ^ (failures - 1) := Nat.pow_le_pow_right (by norm_num) (by omega)
        have hproduct : 2 ^ (failures - 1) ≤ policy.initialDelay.millis * 2 ^ (failures - 1) :=
          Nat.le_mul_of_pos_left _ policy.initialDelay.pos
        have hproduct' : u64Max ≤ policy.initialDelay.millis * u64Max :=
          Nat.le_mul_of_pos_left _ policy.initialDelay.pos
        have hu64' : u64Max < 2 ^ 64 := by decide
        rw [Option.getD_none]
        omega
    have hmax : maxWindowMillis * 10 ^ 6 ≤ maxNanos := by decide
    have hnanos : min (policy.initialDelay.millis * 2 ^ (failures - 1)) policy.maximumDelay.millis * 10 ^ 6 =
        policy.delayNanos failures := by
      unfold delayNanos QuotaPeriod.nanos
      rw [if_neg h0, Nat.mul_right_comm]
      exact (Nat.mul_min_mul_right _ _ _).symm
    unfold delay
    rw [if_neg h0, hmillis]
    unfold Duration.fromMillis
    simp only
    rw [hnanos]
    refine Nat.min_eq_left ((policy.delayNanos_le failures).trans ?_)
    exact (policy.maximumDelay.nanos_le).trans hmax

end AttemptPolicy

/-! ## The machine -/

namespace EagerKey

variable {policy : AttemptPolicy} {s t : ℕ}

/-- Time alone does nothing to a key without failures. -/
theorem elapse_initial : elapse policy t .initial = .initial := rfl

/-- After the quiet period the failures are forgotten. -/
theorem elapse_failed_of_le {n f : ℕ} (h : f + policy.quietPeriod.nanos ≤ t) :
    elapse policy t (.failed n f) = .initial := if_pos h

theorem elapse_failed_of_lt {n f : ℕ} (h : t < f + policy.quietPeriod.nanos) :
    elapse policy t (.failed n f) = .failed n f := if_neg (Nat.not_le.2 h)

/-- A lease that has run out is a failure at its deadline. -/
theorem elapse_leased_of_le {n g d : ℕ} (h : d ≤ t) :
    elapse policy t (.leased n g d) = elapse policy t (.failed (n + 1) d) := if_pos h

theorem elapse_leased_of_lt {n g d : ℕ} (h : t < d) :
    elapse policy t (.leased n g d) = .leased n g d := if_neg (Nat.not_le.2 h)

/-- **Time passes in steps of any size.** -/
theorem elapse_elapse (h : s ≤ t) (key : EagerKey) :
    elapse policy t (elapse policy s key) = elapse policy t key := by
  have hfailed : ∀ n f, elapse policy t (elapse policy s (.failed n f)) = elapse policy t (.failed n f) := by
    intro n f
    rcases Nat.lt_or_ge s (f + policy.quietPeriod.nanos) with hs | hs
    · rw [elapse_failed_of_lt hs]
    · rw [elapse_failed_of_le hs, elapse_failed_of_le (hs.trans h), elapse_initial]
  cases key with
  | initial => rfl
  | failed n f => exact hfailed n f
  | leased n g d =>
    rcases Nat.lt_or_ge s d with hs | hs
    · rw [elapse_leased_of_lt hs]
    · rw [elapse_leased_of_le hs, hfailed, elapse_leased_of_le (hs.trans h)]

/-- A lease that is left was there before, and has not run out. -/
theorem of_elapse_leased {key : EagerKey} {n g d : ℕ} (h : elapse policy t key = .leased n g d) :
    key = .leased n g d ∧ t < d := by
  have hfailed : ∀ m f, elapse policy t (.failed m f) ≠ .leased n g d := by
    intro m f heq
    rcases Nat.lt_or_ge t (f + policy.quietPeriod.nanos) with ht | ht
    · rw [elapse_failed_of_lt ht] at heq
      cases heq
    · rw [elapse_failed_of_le ht] at heq
      cases heq
  cases key with
  | initial => cases h
  | failed m f => exact absurd h (hfailed m f)
  | leased m g' d' =>
    rcases Nat.lt_or_ge t d' with ht | ht
    · rw [elapse_leased_of_lt ht] at h
      cases h
      exact ⟨rfl, ht⟩
    · rw [elapse_leased_of_le ht] at h
      exact absurd h (hfailed _ _)

end EagerKey

/-! ## What an entry shows -/

/-- The state of the machine that an entry was left in. -/
inductive Shows (policy : AttemptPolicy) (now : ℕ) : Option AttemptEntry → EagerKey → Prop where
  | absent : Shows policy now none .initial
  /-- An entry that was reset, and not leased since. -/
  | reset {entry : AttemptEntry} (hpolicy : entry.policy = policy) (hlease : entry.lease = none)
      (hfailures : entry.failures = 0) (hretry : entry.retryAt.nanos ≤ now) :
      Shows policy now (some entry) .initial
  | leased {entry : AttemptEntry} {n g : ℕ} {deadline : Duration} (hpolicy : entry.policy = policy)
      (hlease : entry.lease = some (g, deadline)) (hfailures : entry.failures = min n u32Max) :
      Shows policy now (some entry) (.leased n g deadline.nanos)
  | failed {entry : AttemptEntry} {n : ℕ} (hpos : n ≠ 0) (hpolicy : entry.policy = policy)
      (hlease : entry.lease = none) (hfailures : entry.failures = min n u32Max)
      (hretry : entry.retryAt.nanos = entry.lastFailure.nanos + policy.delayNanos n) :
      Shows policy now (some entry) (.failed n entry.lastFailure.nanos)

/-- The times of an entry are close enough to the clock that no addition saturates. -/
def Near (now : Duration) (entry : Option AttemptEntry) : Prop :=
  ∀ e ∈ entry, e.lastFailure.nanos ≤ now.nanos + QuotaPeriod.maxPeriodNanos ∧
    ∀ lease ∈ e.lease, lease.2.nanos ≤ now.nanos + QuotaPeriod.maxPeriodNanos

/-- A clock reading so far below the greatest duration that no addition saturates. -/
def Unsaturated (reading : Duration) : Prop :=
  reading.nanos + 2 * QuotaPeriod.maxPeriodNanos ≤ maxNanos

variable {policy : AttemptPolicy} {now now' : Duration} {entry entry' : Option AttemptEntry}
  {raw : EagerKey}

/-- A sum of durations in range is exact. -/
theorem saturatingAdd_nanos {a b : Duration} (h : a.nanos + b.nanos ≤ maxNanos) :
    (a.saturatingAdd b).nanos = a.nanos + b.nanos := Nat.min_eq_left h

/-- The end of the quiet period of an entry near the clock. -/
theorem quiet_nanos {origin : Duration} (hnow : Unsaturated now)
    (h : origin.nanos ≤ now.nanos + QuotaPeriod.maxPeriodNanos) :
    (origin.saturatingAdd policy.quietPeriod.duration).nanos = origin.nanos + policy.quietPeriod.nanos := by
  have hquiet := policy.quietPeriod.nanos_le
  unfold Unsaturated at hnow
  rw [saturatingAdd_nanos, QuotaPeriod.duration_nanos]
  rw [QuotaPeriod.duration_nanos]
  omega

/-- An entry shows the same key later on: what the code does lazily is due at the same instants. -/
theorem Shows.mono (h : Shows policy now.nanos entry raw) (hle : now ≤ now') :
    Shows policy now'.nanos entry raw := by
  have hle : now.nanos ≤ now'.nanos := hle
  cases h with
  | absent => exact .absent
  | reset hpolicy hlease hfailures hretry => exact .reset hpolicy hlease hfailures (hretry.trans hle)
  | leased hpolicy hlease hfailures => exact .leased hpolicy hlease hfailures
  | failed hpos hpolicy hlease hfailures hretry => exact .failed hpos hpolicy hlease hfailures hretry

theorem Shows.policy_eq {e : AttemptEntry} {t : ℕ} (h : Shows policy t (some e) raw) : e.policy = policy := by
  cases h with
  | reset hpolicy _ _ _ => exact hpolicy
  | leased hpolicy _ _ => exact hpolicy
  | failed _ hpolicy _ _ _ => exact hpolicy

/-- An entry with a lease shows it. -/
theorem Shows.of_lease {e : AttemptEntry} {t g : ℕ} {deadline : Duration} (h : Shows policy t (some e) raw)
    (hlease : e.lease = some (g, deadline)) :
    ∃ n, raw = .leased n g deadline.nanos ∧ e.failures = min n u32Max := by
  cases h with
  | reset _ hnone _ _ =>
    rw [hlease] at hnone
    cases hnone
  | leased _ hlease' hfailures =>
    rw [hlease] at hlease'
    cases hlease'
    exact ⟨_, rfl, hfailures⟩
  | failed _ _ hnone _ _ =>
    rw [hlease] at hnone
    cases hnone

/-- An entry that shows a lease has it. -/
theorem Shows.lease_eq {e : AttemptEntry} {t n g d : ℕ} (h : Shows policy t (some e) (.leased n g d)) :
    ∃ deadline : Duration, e.lease = some (g, deadline) ∧ deadline.nanos = d := by
  cases h with
  | leased _ hlease _ => exact ⟨_, hlease, rfl⟩

/-- What is near stays near. -/
theorem Near.mono (h : Near now entry) (hle : now ≤ now') : Near now' entry := by
  have hle : now.nanos ≤ now'.nanos := hle
  intro e he
  obtain ⟨hfailure, hlease⟩ := h e he
  exact ⟨by omega, fun lease hmem => (hlease lease hmem).trans (by omega)⟩

/-- **`cleanup` cannot be seen**: what it deletes is in the initial state by now. -/
theorem Shows.cleaned (h : Shows policy now.nanos entry raw) (hnow : Unsaturated now) (hnear : Near now entry)
    (hcleaned : Cleaned now entry entry') :
    ∃ raw', Shows policy now.nanos entry' raw' ∧
      raw'.elapse policy now.nanos = raw.elapse policy now.nanos := by
  rcases hcleaned with rfl | ⟨e, rfl, hremovable, rfl⟩
  · exact ⟨raw, h, rfl⟩
  · refine ⟨.initial, .absent, ?_⟩
    obtain ⟨hfailure, hdeadline⟩ := hnear e rfl
    unfold AttemptEntry.removable at hremovable
    simp only [decide_eq_true_eq] at hremovable
    cases h with
    | reset hpolicy hlease hfailures hretry => rfl
    | leased hpolicy hlease hfailures =>
      rename_i n g deadline
      rw [hlease, hpolicy] at hremovable
      have hquiet := @quiet_nanos policy now deadline hnow (hdeadline _ hlease)
      have hle : deadline.nanos + policy.quietPeriod.nanos ≤ now.nanos := hquiet ▸ hremovable
      rw [EagerKey.elapse_leased_of_le (by omega), EagerKey.elapse_failed_of_le hle, EagerKey.elapse_initial]
    | failed hpos hpolicy hlease hfailures hretry =>
      rw [hlease, hpolicy] at hremovable
      have hquiet := @quiet_nanos policy now e.lastFailure hnow hfailure
      have hle : e.lastFailure.nanos + policy.quietPeriod.nanos ≤ now.nanos := hquiet ▸ hremovable
      rw [EagerKey.elapse_failed_of_le hle, EagerKey.elapse_initial]

/-- A failure of an entry that shows its failures. -/
theorem shows_fail {e : AttemptEntry} {n : ℕ} {time : Duration} (hpolicy : e.policy = policy)
    (hlease : e.lease = none) (hfailures : e.failures = min n u32Max)
    (htime : time.nanos + QuotaPeriod.maxPeriodNanos ≤ maxNanos) (now : ℕ) :
    Shows policy now (some (e.fail time)) (.failed (n + 1) time.nanos) := by
  have hcount : min (e.failures + 1) u32Max = min (n + 1) u32Max := by omega
  have hdelay : (policy.delay (min (n + 1) u32Max)).nanos = policy.delayNanos (n + 1) := by
    rw [policy.delay_eq, policy.delayNanos_min]
  have hle := (policy.delayNanos_le (n + 1)).trans policy.maximumDelay.nanos_le
  refine .failed (Nat.succ_ne_zero n) hpolicy hlease hcount ?_
  unfold AttemptEntry.fail
  simp only
  rw [hpolicy, hcount, saturatingAdd_nanos, hdelay]
  rw [hdelay]
  omega

/-- Forgetting changes the failures and the retry time, or nothing. -/
theorem forgetFailures_eq (e : AttemptEntry) (now : Duration) :
    e.forgetFailures now = { e with failures := 0, retryAt := now } ∨ e.forgetFailures now = e := by
  unfold AttemptEntry.forgetFailures
  split
  · exact Or.inl rfl
  · exact Or.inr rfl

/-- The quiet period of an entry that has failed. -/
theorem Shows.forgetFailures {e : AttemptEntry} {n : ℕ} {f : ℕ} (hnow : Unsaturated now)
    (hnear : e.lastFailure.nanos ≤ now.nanos + QuotaPeriod.maxPeriodNanos)
    (h : Shows policy now.nanos (some e) (.failed n f)) :
    Shows policy now.nanos (some (e.forgetFailures now)) (EagerKey.elapse policy now.nanos (.failed n f)) := by
  cases h with
  | failed hpos hpolicy hlease hfailures hretry =>
    have hquiet := @quiet_nanos policy now e.lastFailure hnow hnear
    by_cases hle : e.lastFailure.nanos + policy.quietPeriod.nanos ≤ now.nanos
    · have hcond : e.lease = none ∧ e.lastFailure.saturatingAdd e.policy.quietPeriod.duration ≤ now := by
        refine ⟨hlease, ?_⟩
        change (e.lastFailure.saturatingAdd e.policy.quietPeriod.duration).nanos ≤ now.nanos
        rw [hpolicy, hquiet]
        exact hle
      rw [EagerKey.elapse_failed_of_le hle]
      unfold AttemptEntry.forgetFailures
      rw [if_pos hcond]
      exact .reset hpolicy hlease rfl le_rfl
    · have hcond : ¬ (e.lease = none ∧ e.lastFailure.saturatingAdd e.policy.quietPeriod.duration ≤ now) := by
        rintro ⟨-, hquietLe⟩
        have hquietLe : (e.lastFailure.saturatingAdd e.policy.quietPeriod.duration).nanos ≤ now.nanos := hquietLe
        rw [hpolicy, hquiet] at hquietLe
        exact hle hquietLe
      rw [EagerKey.elapse_failed_of_lt (Nat.not_le.1 hle)]
      unfold AttemptEntry.forgetFailures
      rw [if_neg hcond]
      exact .failed hpos hpolicy hlease hfailures hretry

/-- **`reconcile` writes down what is due.** -/
theorem Shows.reconcile {e : AttemptEntry} (hnow : Unsaturated now) (hnear : Near now (some e))
    (h : Shows policy now.nanos (some e) raw) :
    Shows policy now.nanos (some (e.reconcile now)) (raw.elapse policy now.nanos) := by
  obtain ⟨hfailure, hdeadline⟩ := hnear e rfl
  have hexpire : e.lease = none → e.expireLease now = e := by
    intro hlease
    unfold AttemptEntry.expireLease
    rw [hlease]
  unfold AttemptEntry.reconcile
  cases h with
  | reset hpolicy hlease hfailures hretry =>
    rw [hexpire hlease, EagerKey.elapse_initial]
    rcases forgetFailures_eq e now with heq | heq
    · rw [heq]
      exact .reset hpolicy hlease rfl le_rfl
    · rw [heq]
      exact .reset hpolicy hlease hfailures hretry
  | failed hpos hpolicy hlease hfailures hretry =>
    rw [hexpire hlease]
    exact Shows.forgetFailures hnow hfailure (.failed hpos hpolicy hlease hfailures hretry)
  | leased hpolicy hlease hfailures =>
    rename_i n g deadline
    have hdeadline := hdeadline _ hlease
    simp only at hdeadline
    by_cases hle : deadline ≤ now
    · -- the lease has run out: a failure at its deadline, and then perhaps a quiet period
      have hle' : deadline.nanos ≤ now.nanos := hle
      have hexpired : e.expireLease now = ({ e with lease := none } : AttemptEntry).fail deadline := by
        unfold AttemptEntry.expireLease
        rw [hlease]
        exact if_pos hle
      have htime : deadline.nanos + QuotaPeriod.maxPeriodNanos ≤ maxNanos := by
        unfold Unsaturated at hnow
        omega
      have hfailed := @shows_fail policy { e with lease := none } n deadline hpolicy rfl hfailures htime now.nanos
      rw [EagerKey.elapse_leased_of_le hle', hexpired]
      exact Shows.forgetFailures hnow (by change deadline.nanos ≤ _; omega) hfailed
    · have hlt : now.nanos < deadline.nanos := not_le.1 hle
      have hexpired : e.expireLease now = e := by
        unfold AttemptEntry.expireLease
        rw [hlease]
        exact if_neg hle
      have hforget : e.forgetFailures now = e := by
        unfold AttemptEntry.forgetFailures
        rw [if_neg]
        rintro ⟨hnone, -⟩
        rw [hlease] at hnone
        cases hnone
      rw [EagerKey.elapse_leased_of_lt hlt, hexpired, hforget]
      exact .leased hpolicy hlease hfailures

theorem Near.reconcile {e : AttemptEntry} (h : Near now (some e)) : Near now (some (e.reconcile now)) := by
  obtain ⟨hfailure, hdeadline⟩ := h e rfl
  have hexpire : (e.expireLease now).lastFailure.nanos ≤ now.nanos + QuotaPeriod.maxPeriodNanos ∧
      ∀ lease ∈ (e.expireLease now).lease, lease.2.nanos ≤ now.nanos + QuotaPeriod.maxPeriodNanos := by
    unfold AttemptEntry.expireLease
    split
    · rename_i g deadline hlease
      split
      · exact ⟨hdeadline _ hlease, fun lease h => by cases h⟩
      · exact ⟨hfailure, hdeadline⟩
    · exact ⟨hfailure, hdeadline⟩
  intro e' he'
  rw [Option.mem_some] at he'
  subst he'
  unfold AttemptEntry.reconcile
  rcases forgetFailures_eq (e.expireLease now) now with heq | heq
  · rw [heq]
    exact hexpire
  · rw [heq]
    exact hexpire

/-- **`deny` is the denial of the machine.** -/
theorem Shows.deny_eq {e : AttemptEntry} {key : EagerKey} (h : Shows policy now.nanos (some e) key)
    (helapsed : key.elapse policy now.nanos = key) (receipt : MemoryAttemptReceipt) :
    (key.tryAdmit policy now.nanos receipt).1 =
        (match e.deny now with | some denial => .denied denial | none => .admitted receipt) ∧
      (e.deny now ≠ none → (key.tryAdmit policy now.nanos receipt).2 = key) := by
  -- delays are differences of instants on both sides
  have hofNanos : ∀ d : Duration, Delay.ofNanos (d.nanos - now.nanos) = ⟨d.saturatingSub now⟩ := by
    intro d
    have hle := d.le_max
    unfold Delay.ofNanos Duration.saturatingSub
    simp only [Delay.mk.injEq, Duration.mk.injEq]
    omega
  unfold AttemptEntry.deny
  cases h with
  | reset hpolicy hlease hfailures hretry =>
    have hdeny : ¬ now < e.retryAt := not_lt.2 hretry
    rw [hlease]
    simp only [if_neg hdeny]
    exact ⟨rfl, fun h => absurd rfl h⟩
  | leased hpolicy hlease hfailures =>
    -- a live lease keeps others out until its deadline
    rename_i n g deadline
    rw [hlease]
    refine ⟨?_, fun _ => rfl⟩
    unfold EagerKey.tryAdmit
    simp only [hofNanos]
  | failed hpos hpolicy hlease hfailures hretry =>
    rename_i n
    rw [hlease]
    simp only
    unfold EagerKey.tryAdmit
    simp only [← hretry]
    by_cases hlt : now < e.retryAt
    · have hlt' : now.nanos < e.retryAt.nanos := hlt
      simp only [if_pos hlt, if_pos hlt', hofNanos]
      exact ⟨trivial, fun _ => trivial⟩
    · have hlt' : ¬ now.nanos < e.retryAt.nanos := hlt
      simp only [if_neg hlt, if_neg hlt']
      exact ⟨trivial, fun h => absurd rfl h⟩

/-- An entry that shows the machine's state and does not deny: the machine admits, and the leased
entry shows its new state. -/
theorem Shows.tryAdmit {e : AttemptEntry} {raw : EagerKey} (h : Shows policy now.nanos (some e) raw)
    (helapsed : raw.elapse policy now.nanos = raw) (hdeny : e.deny now = none)
    (hnow : Unsaturated now) (receipt : MemoryAttemptReceipt) :
    (raw.tryAdmit policy now.nanos receipt).1 = .admitted receipt ∧
      Shows policy now.nanos (some { e with
          lease := some (receipt.generation, now.saturatingAdd e.policy.lease.duration) })
        (raw.tryAdmit policy now.nanos receipt).2 := by
  have hgrant := (h.deny_eq helapsed receipt).1
  rw [hdeny] at hgrant
  refine ⟨hgrant, ?_⟩
  -- the deadline does not saturate
  have hdeadline : (now.saturatingAdd policy.lease.duration).nanos =
      now.nanos + policy.lease.nanos := by
    have hlease := policy.lease.nanos_le
    unfold Unsaturated at hnow
    rw [saturatingAdd_nanos, QuotaPeriod.duration_nanos]
    rw [QuotaPeriod.duration_nanos]
    omega
  cases h with
  | reset hpolicy hlease hfailures hretry =>
    change Shows policy now.nanos _
      (.leased 0 receipt.generation (now.nanos + policy.lease.nanos))
    rw [← hdeadline, ← hpolicy]
    exact .leased rfl rfl (by rw [hfailures]; exact (Nat.zero_min _).symm)
  | leased hpolicy hlease hfailures =>
    -- a live lease would have denied
    unfold AttemptEntry.deny at hdeny
    rw [hlease] at hdeny
    cases hdeny
  | failed hpos hpolicy hlease hfailures hretry =>
    rename_i n
    have hready : ¬ now.nanos < e.lastFailure.nanos + policy.delayNanos n := by
      intro hlt
      unfold EagerKey.tryAdmit at hgrant
      simp only [if_pos hlt] at hgrant
      cases hgrant
    unfold EagerKey.tryAdmit
    simp only [if_neg hready]
    rw [← hdeadline, ← hpolicy]
    exact .leased rfl rfl hfailures

/-- The same for a key without an entry. -/
theorem shows_fresh (hnow : Unsaturated now) (receipt : MemoryAttemptReceipt) :
    Shows policy now.nanos (some ⟨policy, 0, now, now,
        some (receipt.generation, now.saturatingAdd policy.lease.duration)⟩)
      (EagerKey.tryAdmit policy now.nanos receipt .initial).2 := by
  have hentry : Shows policy now.nanos (some ⟨policy, 0, now, now, none⟩) .initial :=
    .reset rfl rfl rfl le_rfl
  exact (hentry.tryAdmit rfl (if_neg (lt_irrefl now)) hnow receipt).2

/-- The machine has nothing to do right after an admission. -/
theorem admit_elapsed {raw : EagerKey} (helapsed : raw.elapse policy now.nanos = raw)
    (receipt : MemoryAttemptReceipt) :
    (raw.tryAdmit policy now.nanos receipt).2.elapse policy now.nanos =
      (raw.tryAdmit policy now.nanos receipt).2 := by
  have hlease := policy.lease.nanos_pos
  cases raw with
  | initial => exact EagerKey.elapse_leased_of_lt (by omega)
  | leased n g d => exact helapsed
  | failed n f =>
    unfold EagerKey.tryAdmit
    simp only
    split
    · exact helapsed
    · exact EagerKey.elapse_leased_of_lt (by omega)

/-- A completion leaves nothing more to elapse. -/
theorem complete_elapsed {store : StoreId} {raw : EagerKey} (helapsed : raw.elapse policy now.nanos = raw)
    (receipt : MemoryAttemptReceipt) (outcome : AttemptOutcome) :
    (raw.complete policy now.nanos store receipt outcome).2.elapse policy now.nanos =
      (raw.complete policy now.nanos store receipt outcome).2 := by
  have hquiet := policy.quietPeriod.nanos_pos
  unfold EagerKey.complete
  split
  · split
    · split
      · rfl
      · exact EagerKey.elapse_failed_of_lt (by omega)
    · exact helapsed
  · exact helapsed

/-- An entry alone never denies for want of room. -/
theorem deny_ne_storageCapacity (e : AttemptEntry) (now : Duration) : e.deny now ≠ some .storageCapacity := by
  unfold AttemptEntry.deny
  split
  · simp
  · split
    · simp
    · simp

theorem completion_eq {a b : AttemptCompletion} (houtcome : a.outcome = b.outcome)
    (hfailures : a.consecutiveFailures = b.consecutiveFailures) (hretry : a.retryAfter = b.retryAfter) :
    a = b := by
  cases a
  cases b
  simp_all

/-- The delay a failure reports. -/
theorem delay_ofNanos (n : ℕ) :
    (⟨policy.delay (min n u32Max)⟩ : Delay) = .ofNanos (policy.delayNanos n) := by
  have heq : (policy.delay (min n u32Max)).nanos = policy.delayNanos n := by
    rw [policy.delay_eq, policy.delayNanos_min]
  have hle := (policy.delay (min n u32Max)).le_max
  unfold Delay.ofNanos
  rw [Delay.mk.injEq, Duration.ext_iff]
  simp only
  omega

/-! ## The simulation -/

section Simulation

variable [Sha2] {store : StoreId} {key : AttemptKey} {event : AttemptEvent} {s s' : AttemptState}
  {eager : Eager}

/-- The state of a limiter stands for the machine of a key. -/
structure Simulates (policy : AttemptPolicy) (key : AttemptKey) (s : AttemptState) (eager : Eager) : Prop where
  issued : s.generation = eager.issued
  near : Near s.now (s.entries.lookup key)
  shows : ∃ raw, Shows policy s.now.nanos (s.entries.lookup key) raw ∧
    raw.elapse policy s.now.nanos = eager.key

omit [Sha2] in
theorem Simulates.new : Simulates policy key AttemptState.new Eager.new where
  issued := rfl
  near := by
    intro e he
    simp [AttemptState.new] at he
  shows := ⟨.initial, by simpa [AttemptState.new] using Shows.absent, rfl⟩

omit [Sha2] in
/-- The state a cleaned entry shows, at the time of the next event. -/
theorem Simulates.due (h : Simulates policy key s eager) (hle : s.now ≤ event.now)
    (hnow : Unsaturated event.now) {entry : Option AttemptEntry}
    (hcleaned : Cleaned event.now (s.entries.lookup key) entry) :
    Near event.now entry ∧ ∃ raw, Shows policy event.now.nanos entry raw ∧
      raw.elapse policy event.now.nanos = eager.due policy event := by
  obtain ⟨raw, hraw, hkey⟩ := h.shows
  have hle' : s.now.nanos ≤ event.now.nanos := hle
  obtain ⟨raw', hraw', helapse⟩ := (hraw.mono hle).cleaned hnow (h.near.mono hle) hcleaned
  refine ⟨?_, raw', hraw', ?_⟩
  · rcases hcleaned with rfl | ⟨-, -, -, rfl⟩
    · exact h.near.mono hle
    · intro e he
      cases he
  · unfold Eager.due
    rw [helapse, ← hkey, EagerKey.elapse_elapse hle']

omit [Sha2] in
/-- The entry after `reconcile`, if there is one, shows the state of the machine. -/
theorem Simulates.reconciled (h : Simulates policy key s eager) (hle : s.now ≤ event.now)
    (hnow : Unsaturated event.now) {entry : Option AttemptEntry}
    (hcleaned : Cleaned event.now (s.entries.lookup key) entry) :
    Near event.now (entry.map (·.reconcile event.now)) ∧
      Shows policy event.now.nanos (entry.map (·.reconcile event.now)) (eager.due policy event) := by
  obtain ⟨hnear, raw, hraw, helapse⟩ := h.due hle hnow hcleaned
  cases entry with
  | none =>
    cases hraw
    rw [← helapse]
    exact ⟨hnear, .absent⟩
  | some e =>
    rw [← helapse]
    exact ⟨hnear.reconcile, hraw.reconcile hnow hnear⟩

omit [Sha2] in
/-- What is due at a reading has elapsed by then. -/
theorem due_elapsed (policy : AttemptPolicy) (eager : Eager) (event : AttemptEvent) :
    (eager.due policy event).elapse policy event.now.nanos = eager.due policy event :=
  EagerKey.elapse_elapse le_rfl _

omit [Sha2] in
/-- A state that shows the machine's own. -/
theorem simulates_of_shows {eager' : Eager} (hnow : s'.now = event.now) (hissued : s'.generation = eager'.issued)
    (hnear : Near event.now (s'.entries.lookup key))
    (h : Shows policy event.now.nanos (s'.entries.lookup key) eager'.key)
    (helapsed : eager'.key.elapse policy event.now.nanos = eager'.key) :
    Simulates policy key s' eager' where
  issued := hissued
  near := hnow ▸ hnear
  shows := ⟨eager'.key, hnow ▸ h, hnow ▸ helapsed⟩

/-- Other keys and unavailable calls only let time pass. -/
theorem observe_key_of_not (h : ¬ (event.request.key = key ∧ ¬ event.response.Unavailable)) :
    (eager.observe policy store key event).key = eager.due policy event := if_neg h

/-- An available admission of the key is one of the eager machine. -/
theorem observe_key_tryAdmit (policy : AttemptPolicy) (store : StoreId) (eager : Eager) {subject : AttemptSubject} (hrequest : event.request = .tryAdmit subject)
    (hkey : subject.key = key) (havailable : ¬ event.response.Unavailable) :
    (eager.observe policy store key event).key =
      ((eager.due policy event).tryAdmit policy event.now.nanos (eager.receipt store key)).2 := by
  unfold Eager.observe
  simp only [hrequest]
  exact if_pos ⟨hkey, havailable⟩

/-- An available completion for the key is one of the eager machine. -/
theorem observe_key_complete (policy : AttemptPolicy) (store : StoreId) (eager : Eager)
    {receipt : MemoryAttemptReceipt} {outcome : AttemptOutcome}
    (hrequest : event.request = .complete receipt outcome) (hkey : receipt.key = key)
    (havailable : ¬ event.response.Unavailable) :
    (eager.observe policy store key event).key =
      ((eager.due policy event).complete policy event.now.nanos store receipt outcome).2 := by
  unfold Eager.observe
  simp only [hrequest]
  exact if_pos ⟨hkey, havailable⟩

/-- **One call.** The response is the one of the machine, and the state goes on standing for it. -/
theorem attemptStep_simulates (h : Simulates policy key s eager) (hstep : AttemptStep store key event s s')
    (hle : s.now ≤ event.now) (hnow' : s'.now = event.now)
    (hgeneration : s'.generation = s.generation + if event.response.receipt.isSome then 1 else 0)
    (hnow : Unsaturated event.now)
    (hpolicy : ∀ subject, event.request = .tryAdmit subject → subject.key = key → subject.policy = policy) :
    (event.request.key = key → eager.Answers policy store key event) ∧
      Simulates policy key s' (eager.observe policy store key event) := by
  have hissued : s'.generation = (eager.observe policy store key event).issued := by
    rw [hgeneration, h.issued]
    rfl
  have helapsed := due_elapsed policy eager event
  cases hstep with
  | other hkey hentry =>
    refine ⟨fun heq => absurd heq hkey, hissued, ?_, ?_⟩
    · rw [hnow']
      exact (h.due hle hnow hentry).1
    · rw [hnow', observe_key_of_not fun hcond => hkey hcond.1]
      exact (h.due hle hnow hentry).2
  | full subject hrequest hkey hresponse hentry hentry' =>
    have hunavailable : event.response.Unavailable := Or.inl hresponse
    obtain ⟨hnear, hshows⟩ := h.reconciled hle hnow hentry
    refine ⟨?_, simulates_of_shows hnow' hissued ?_ ?_ ?_⟩
    · intro _
      unfold Eager.Answers
      rw [hrequest]
      exact Or.inl hunavailable
    · rw [hentry']
      exact hnear
    · rw [hentry', observe_key_of_not fun hcond => hcond.2 hunavailable]
      exact hshows
    · rw [observe_key_of_not fun hcond => hcond.2 hunavailable]
      exact helapsed
  | denied subject hrequest hkey entry denial hresponse hentry hdeny hentry' =>
    obtain ⟨hnear, hshows⟩ := h.reconciled hle hnow (Or.inl hentry.symm)
    obtain ⟨hanswer, hsame⟩ := Shows.deny_eq hshows helapsed (eager.receipt store key)
    rw [hdeny] at hanswer hsame
    have havailable : ¬ event.response.Unavailable := by
      rw [hresponse]
      rintro (heq | heq)
      · have hcapacity : denial = .storageCapacity := by simpa using heq
        subst hcapacity
        exact deny_ne_storageCapacity _ _ hdeny
      · cases heq
    have hkey' := observe_key_tryAdmit policy store eager hrequest hkey havailable
    rw [hsame (by simp)] at hkey'
    refine ⟨?_, simulates_of_shows hnow' hissued ?_ ?_ ?_⟩
    · intro _
      unfold Eager.Answers
      rw [hrequest]
      refine Or.inr ?_
      rw [hresponse, hanswer]
    · rw [hentry']
      exact hnear
    · rw [hentry', hkey']
      exact hshows
    · rw [hkey']
      exact helapsed
  | exhausted subject hrequest hkey hresponse entry hentry hdeny hentry' =>
    have hunavailable : event.response.Unavailable := Or.inr hresponse
    obtain ⟨hnear, hshows⟩ := h.reconciled hle hnow hentry
    refine ⟨?_, simulates_of_shows hnow' hissued ?_ ?_ ?_⟩
    · intro _
      unfold Eager.Answers
      rw [hrequest]
      exact Or.inl hunavailable
    · rw [hentry']
      exact hnear
    · rw [hentry', observe_key_of_not fun hcond => hcond.2 hunavailable]
      exact hshows
    · rw [observe_key_of_not fun hcond => hcond.2 hunavailable]
      exact helapsed
  | admitted subject hrequest hkey entry hresponse hentry hdeny leased hleased hentry' =>
    obtain ⟨hnear, hshows⟩ := h.reconciled hle hnow hentry
    have havailable : ¬ event.response.Unavailable := by
      rw [hresponse]
      rintro (heq | heq)
      · cases heq
      · cases heq
    have hreceipt : (⟨store, key, s.generation + 1⟩ : MemoryAttemptReceipt) = eager.receipt store key := by
      rw [h.issued]
      rfl
    -- the leased entry is the reconciled one, or a fresh one under the policy of the key
    have hleasedShows : leased.policy = policy ∧ leased.lastFailure.nanos ≤
          event.now.nanos + QuotaPeriod.maxPeriodNanos ∧
        ((eager.due policy event).tryAdmit policy event.now.nanos (eager.receipt store key)).1 =
          .admitted (eager.receipt store key) ∧
        Shows policy event.now.nanos (some { leased with
            lease := some (s.generation + 1, event.now.saturatingAdd leased.policy.lease.duration) })
          ((eager.due policy event).tryAdmit policy event.now.nanos (eager.receipt store key)).2 := by
      have hgen : (eager.receipt store key).generation = s.generation + 1 := by rw [← hreceipt]
      cases entry with
      | none =>
        simp only [Option.map_none, Option.getD_none] at hleased hshows
        rw [hpolicy subject hrequest hkey] at hleased
        subst hleased
        cases hdue : eager.due policy event with
        | initial =>
          have hfresh := @shows_fresh policy event.now hnow (eager.receipt store key)
          rw [hgen] at hfresh
          exact ⟨rfl, Nat.le_add_right _ _, rfl, hfresh⟩
        | leased n g d =>
          rw [hdue] at hshows
          cases hshows
        | failed n f =>
          rw [hdue] at hshows
          cases hshows
      | some e =>
        simp only [Option.map_some, Option.getD_some] at hleased hshows hnear
        subst hleased
        have hgrant := hshows.tryAdmit helapsed (hdeny e rfl) hnow (eager.receipt store key)
        rw [hgen] at hgrant
        exact ⟨hshows.policy_eq, (hnear _ rfl).1, hgrant.1, hgrant.2⟩
    obtain ⟨hleasedPolicy, hleasedNear, hadmitted, hleasedShows⟩ := hleasedShows
    have hkey' := observe_key_tryAdmit policy store eager hrequest hkey havailable
    refine ⟨?_, simulates_of_shows hnow' hissued ?_ ?_ ?_⟩
    · intro _
      unfold Eager.Answers
      rw [hrequest]
      refine Or.inr ?_
      rw [hresponse, hadmitted, hreceipt]
    · rw [hentry']
      intro e he
      rw [Option.mem_some] at he
      subst he
      refine ⟨hleasedNear, ?_⟩
      intro lease hlease
      rw [Option.mem_some] at hlease
      subst hlease
      have hlen := leased.policy.lease.nanos_le
      have hsat := hnow
      unfold Unsaturated at hsat
      simp only
      rw [saturatingAdd_nanos, QuotaPeriod.duration_nanos]
      · omega
      · rw [QuotaPeriod.duration_nanos]
        omega
    · rw [hentry', hkey']
      exact hleasedShows
    · rw [hkey']
      exact admit_elapsed helapsed _
  | applied receipt outcome hrequest hkey hstore entry hentry hholds done hresponse houtcome hdone =>
    have havailable : ¬ event.response.Unavailable := by
      rw [hresponse]
      rintro (heq | heq)
      · cases heq
      · cases heq
    obtain ⟨hnear, raw, hraw, helapse⟩ := h.due hle hnow (Or.inl rfl)
    rw [hentry] at hraw hnear
    obtain ⟨deadline, hlease, hlt⟩ := hholds
    obtain ⟨n, rfl, hfailures⟩ := hraw.of_lease hlease
    have hlt' : event.now.nanos < deadline.nanos := hlt
    rw [EagerKey.elapse_leased_of_lt hlt'] at helapse
    have hkey' := observe_key_complete policy store eager hrequest hkey havailable
    have hcount : min (entry.failures + 1) u32Max = min (n + 1) u32Max := by omega
    have hpolicy' := hraw.policy_eq
    rw [← helapse] at hkey'
    have hcomplete : event.response = .complete (.returned (.ok ((EagerKey.leased n receipt.generation
          deadline.nanos).complete policy event.now.nanos store receipt outcome).1)) ∧
        Near event.now (s'.entries.lookup key) ∧
        Shows policy event.now.nanos (s'.entries.lookup key) ((EagerKey.leased n receipt.generation
          deadline.nanos).complete policy event.now.nanos store receipt outcome).2 := by
      rcases hdone with ⟨hsuccess, hcount0, hdelay0, hafter⟩ | ⟨hfailure, hcount', hdelay, hafter⟩
      · unfold EagerKey.complete
        simp only [hstore, true_and, if_true, dif_pos hsuccess]
        refine ⟨?_, ?_, ?_⟩
        · rw [hresponse]
          exact congrArg (fun c => AttemptResponse.complete (.returned (.ok (.applied c))))
            (completion_eq houtcome hcount0 hdelay0)
        · rw [hafter]
          intro e he
          cases he
        · rw [hafter]
          exact .absent
      · have htime : event.now.nanos + QuotaPeriod.maxPeriodNanos ≤ maxNanos := by
          unfold Unsaturated at hnow
          omega
        unfold EagerKey.complete
        simp only [hstore, true_and, if_true, dif_neg hfailure]
        refine ⟨?_, ?_, ?_⟩
        · rw [hresponse]
          refine congrArg (fun c => AttemptResponse.complete (.returned (.ok (.applied c))))
            (completion_eq houtcome ?_ ?_)
          · rw [hcount', hcount]
          · rw [hdelay, hcount, hpolicy', delay_ofNanos]
        · rw [hafter]
          intro e he
          rw [Option.mem_some] at he
          subst he
          exact ⟨Nat.le_add_right _ _, fun lease hmem => by cases hmem⟩
        · rw [hafter]
          exact @shows_fail policy { entry with lease := none } n event.now hpolicy' rfl hfailures htime _
    refine ⟨?_, simulates_of_shows hnow' hissued hcomplete.2.1 ?_ ?_⟩
    · intro _
      unfold Eager.Answers
      rw [hrequest]
      simp only [← helapse]
      exact hcomplete.1
    · rw [hkey']
      exact hcomplete.2.2
    · rw [hkey', helapse]
      exact complete_elapsed helapsed receipt outcome
  | stale receipt outcome hrequest hkey hresponse hnot hentry' =>
    have havailable : ¬ event.response.Unavailable := by
      rw [hresponse]
      rintro (heq | heq)
      · cases heq
      · cases heq
    obtain ⟨hnear, raw, hraw, helapse⟩ := h.due hle hnow (Or.inl rfl)
    have hkey' := observe_key_complete policy store eager hrequest hkey havailable
    -- a lease the machine still has is the one of the entry, which the receipt does not hold
    have hstale : (eager.due policy event).complete policy event.now.nanos store receipt outcome =
        (.stale, eager.due policy event) := by
      rw [← helapse]
      cases hdue : raw.elapse policy event.now.nanos with
      | initial => rfl
      | failed n f => rfl
      | leased n g d =>
        unfold EagerKey.complete
        simp only
        rw [if_neg]
        rintro ⟨hstore, rfl⟩
        obtain ⟨rfl, hlt⟩ := EagerKey.of_elapse_leased hdue
        cases hentry : s.entries.lookup key with
        | none =>
          rw [hentry] at hraw
          cases hraw
        | some entry =>
          rw [hentry] at hraw
          obtain ⟨deadline, hlease, rfl⟩ := hraw.lease_eq
          exact hnot hstore entry hentry ⟨deadline, hlease, hlt⟩
    rw [hstale] at hkey'
    refine ⟨?_, hissued, ?_, ?_⟩
    · intro _
      unfold Eager.Answers
      rw [hrequest]
      simp only
      rw [hstale, hresponse]
    · rw [hnow', hentry']
      exact hnear
    · rw [hnow', hentry', hkey']
      exact ⟨raw, hraw, helapse⟩

/-! ## Runs -/

/-- The policies of the admissions of a run. -/
def attemptPolicies (calls : List AttemptCall) : Set AttemptPolicy :=
  { policy | ∃ call ∈ calls, ∃ subject, call.request = .tryAdmit subject ∧ subject.policy = policy }

/-- The time of a limiter after some calls: the latest reading. -/
def latestReading (calls : List AttemptCall) : Duration :=
  calls.foldl (fun time call => max time call.reading) Duration.zero

/-- A subject with the key of a known policy is under that policy. -/
theorem policy_of_key {known : Set AttemptPolicy}
    (hfree : Set.InjOn Sha2.sha256 (AttemptPolicy.preimage '' known)) (hpolicy : policy ∈ known)
    {subject : AttemptSubject} {subjectKey : SubjectKey} (hsubject : subject.policy ∈ known)
    (hkey : subject.key = ⟨policy.fingerprint, subjectKey⟩) : subject.policy = policy := by
  have hfingerprint : Sha2.sha256 subject.policy.preimage = Sha2.sha256 policy.preimage :=
    congrArg CounterKey.fingerprint hkey
  exact AttemptPolicy.preimage_inj
    (hfree (Set.mem_image_of_mem _ hsubject) (Set.mem_image_of_mem _ hpolicy) hfingerprint)

omit [Sha2] in
theorem unsaturated_max {a b : Duration} (ha : Unsaturated a) (hb : Unsaturated b) : Unsaturated (max a b) := by
  rcases max_choice a b with h | h
  · rw [h]
    exact ha
  · rw [h]
    exact hb

omit [Sha2] in
/-- One more reading. -/
theorem latestReading_snoc (calls : List AttemptCall) (call : AttemptCall) :
    latestReading (calls ++ [call]) = max (latestReading calls) call.reading := by
  unfold latestReading
  rw [List.foldl_append]
  rfl

/-- The machine after one more event. -/
theorem Eager.after_snoc (events : List AttemptEvent) (event : AttemptEvent) :
    Eager.after policy store key (events ++ [event]) =
      (Eager.after policy store key events).observe policy store key event := by
  unfold Eager.after
  rw [List.foldl_append]
  rfl

/-- What holds after a run, for the machine of a key. -/
structure Tracked (policy : AttemptPolicy) (store : StoreId) (key : AttemptKey) (events : List AttemptEvent)
    (s : Mutex AttemptState) : Prop where
  unpoisoned : s.poisoned = false
  unsaturated : Unsaturated s.data.now
  simulates : Simulates policy key s.data (Eager.after policy store key events)

/-- What a call is asked to bring: a reading that does not saturate, and the policy of the key. -/
def Brings (policy : AttemptPolicy) (key : AttemptKey) (call : AttemptCall) : Prop :=
  Unsaturated call.reading ∧
    ∀ subject, call.request = .tryAdmit subject → subject.key = key → subject.policy = policy

theorem Tracked.new (policy : AttemptPolicy) (store : StoreId) (key : AttemptKey) :
    Tracked policy store key [] MemoryAttemptLimiter.new where
  unpoisoned := rfl
  unsaturated := by
    change Duration.zero.nanos + _ ≤ _
    decide
  simulates := Simulates.new

/-- **One call.** The eager machine gives its answer, and keeps up with it. -/
theorem Tracked.step {events : List AttemptEvent} {m : Mutex AttemptState} (capacity : ℕ)
    (h : Tracked policy store key events m) {call : AttemptCall} (hcall : Brings policy key call) :
    ((MemoryAttemptLimiter.serve capacity store call m).1.request.key = key →
      (Eager.after policy store key events).Answers policy store key
        (MemoryAttemptLimiter.serve capacity store call m).1) ∧
    Tracked policy store key (events ++ [(MemoryAttemptLimiter.serve capacity store call m).1])
      (MemoryAttemptLimiter.serve capacity store call m).2 := by
  obtain ⟨hserved, hstep⟩ := MemoryAttemptLimiter.serve_attemptStep h.unpoisoned
    (Prod.mk.eta (p := MemoryAttemptLimiter.serve capacity store call m)).symm
  have hnow : Unsaturated (MemoryAttemptLimiter.serve capacity store call m).1.now :=
    unsaturated_max h.unsaturated hcall.1
  obtain ⟨hanswers, hsimulates⟩ := attemptStep_simulates h.simulates (hstep key) hserved.now_le hserved.now_eq
    hserved.generation_eq hnow hcall.2
  refine ⟨hanswers, hserved.unpoisoned, ?_, ?_⟩
  · rw [hserved.now_eq]
    exact hnow
  · rw [Eager.after_snoc]
    exact hsimulates

/-- **Runs.** The eager machine keeps up with the limiter. -/
theorem run_tracked (capacity : ℕ) (store : StoreId) {calls : List AttemptCall}
    (hcalls : ∀ call ∈ calls, Brings policy key call) :
    Tracked policy store key (MemoryAttemptLimiter.run capacity store calls)
      (MemoryAttemptLimiter.after capacity store calls) :=
  Machine.history_inv (Tracked policy store key)
    (fun _ _ _ hcall h => (h.step capacity hcall).2) (Tracked.new policy store key) hcalls

/-- The limiter has observed the latest reading. -/
theorem after_now (capacity : ℕ) (store : StoreId) {calls : List AttemptCall}
    (hcalls : ∀ call ∈ calls, Brings policy key call) :
    (MemoryAttemptLimiter.after capacity store calls).data.now = latestReading calls := by
  induction calls using List.reverseRecOn with
  | nil => rfl
  | append_singleton calls call ih =>
    have hprefix : ∀ c ∈ calls, Brings policy key c := fun c hc => hcalls c (List.mem_append_left _ hc)
    have htracked := run_tracked capacity store hprefix
    have hserved := (MemoryAttemptLimiter.serve_attemptStep htracked.unpoisoned
      (Prod.mk.eta (p := MemoryAttemptLimiter.serve capacity store call
        (MemoryAttemptLimiter.after capacity store calls))).symm).1
    have hafter : MemoryAttemptLimiter.after capacity store (calls ++ [call]) =
        (MemoryAttemptLimiter.serve capacity store call (MemoryAttemptLimiter.after capacity store calls)).2 := by
      unfold MemoryAttemptLimiter.after
      rw [Machine.final_append]
      rfl
    rw [hafter, hserved.now_eq, latestReading_snoc, ← ih hprefix]
    rfl

/-- **Lazy attempt state is the eager machine.** Over every run whose clock readings do not
saturate, each event happens at the latest reading so far, and each response about a key is the
response of the eager machine of that key after the events before it, unless it is about
storage. -/
theorem attempts_eager (capacity : ℕ) (store : StoreId) (calls : List AttemptCall)
    (known : Set AttemptPolicy) (hfree : Set.InjOn Sha2.sha256 (AttemptPolicy.preimage '' known))
    (hknown : attemptPolicies calls ⊆ known) (hreadings : ∀ call ∈ calls, Unsaturated call.reading)
    (policy : AttemptPolicy) (hpolicy : policy ∈ known) (subject : SubjectKey)
    (before : List AttemptEvent) (event : AttemptEvent) (after : List AttemptEvent)
    (hrun : MemoryAttemptLimiter.run capacity store calls = before ++ event :: after) :
    event.now = latestReading (calls.take (before.length + 1)) ∧
      (event.request.key = ⟨policy.fingerprint, subject⟩ →
        (Eager.after policy store ⟨policy.fingerprint, subject⟩ before).Answers policy store
          ⟨policy.fingerprint, subject⟩ event) := by
  have hbrings : ∀ call ∈ calls, Brings policy ⟨policy.fingerprint, subject⟩ call := by
    intro call hcall
    refine ⟨hreadings call hcall, ?_⟩
    intro s hs hkey
    exact policy_of_key hfree hpolicy (hknown ⟨call, hcall, s, hs, rfl⟩) hkey
  obtain ⟨cs, c, cs', rfl, rfl, rfl, -⟩ := Machine.outputs_eq_append_cons hrun
  have hprefix : ∀ call ∈ cs, Brings policy ⟨policy.fingerprint, subject⟩ call :=
    fun call hcall => hbrings call (List.mem_append_left _ hcall)
  have hc := hbrings c (List.mem_append_right _ List.mem_cons_self)
  refine ⟨?_, ((run_tracked capacity store hprefix).step capacity hc).1⟩
  have htake : (cs ++ c :: cs').take (cs.length + 1) = cs ++ [c] := by
    rw [List.take_append, List.take_of_length_le (by omega)]
    simp
  rw [Machine.length_outputs, htake, latestReading_snoc, ← after_now capacity store hprefix]
  rfl

end Simulation

/-- A login attempt. -/
def loginAdmit (millis : ℕ) : AttemptCall :=
  ⟨Duration.fromMillis millis, .tryAdmit ⟨loginAttempts, Digest.replicate 1⟩⟩

/-- Its completion by a failure. -/
def loginFailure : letI := vectorSha2; AttemptCall :=
  letI := vectorSha2
  ⟨Duration.fromMillis 5, .complete ⟨3, ⟨loginAttempts.fingerprint, Digest.replicate 1⟩, 1⟩ .failure⟩

/-- An attempt that fails after five milliseconds, and another two milliseconds later: the machine
denies it for eight more, and so does the limiter. -/
theorem attempts_eager_login :
    letI := vectorSha2
    ∃ first second third, MemoryAttemptLimiter.run 4 3 [loginAdmit 0, loginFailure, loginAdmit 7] =
        [first, second] ++ third :: [] ∧
      third.response = .tryAdmit (.returned (.ok (.denied (.backoff (.ofNanos 8000000))))) ∧
      third.now = latestReading [loginAdmit 0, loginFailure, loginAdmit 7] ∧
      (Eager.after loginAttempts 3 ⟨loginAttempts.fingerprint, Digest.replicate 1⟩ [first, second]).Answers
        loginAttempts 3 ⟨loginAttempts.fingerprint, Digest.replicate 1⟩ third := by
  let := vectorSha2
  have hfree : Set.InjOn Sha2.sha256 (AttemptPolicy.preimage '' {loginAttempts}) := by
    rw [Set.image_singleton]
    exact Set.injOn_singleton _ _
  have hknown : attemptPolicies [loginAdmit 0, loginFailure, loginAdmit 7] ⊆ {loginAttempts} := by
    rintro policy ⟨call, hcall, subject, hrequest, rfl⟩
    simp only [List.mem_cons, List.not_mem_nil, or_false] at hcall
    rcases hcall with rfl | rfl | rfl
    · cases hrequest
      rfl
    · cases hrequest
    · cases hrequest
      rfl
  have hreadings : ∀ call ∈ [loginAdmit 0, loginFailure, loginAdmit 7], Unsaturated call.reading := by
    intro call hcall
    simp only [List.mem_cons, List.not_mem_nil, or_false] at hcall
    unfold Unsaturated
    rcases hcall with rfl | rfl | rfl
    · decide
    · decide
    · decide
  refine ⟨_, _, _, rfl, by decide +kernel, ?_⟩
  obtain ⟨hnow, hanswers⟩ := attempts_eager 4 3 [loginAdmit 0, loginFailure, loginAdmit 7] {loginAttempts} hfree
    hknown hreadings loginAttempts rfl (Digest.replicate 1) [_, _] _ [] rfl
  exact ⟨hnow, hanswers rfl⟩

end Runlimit
