import Runlimit.Spec.AttemptRun

/-!
# The eager attempt machine

What the attempt limiter is for, one key at a time and without storage. A key is in its initial
state, holds a lease, or has failed. A lease that reaches its deadline turns into a failure at
the deadline, and a failed key returns to the initial state a quiet period after its last
failure: `elapse` makes the transitions that are due by a time. Times are nanoseconds and
failures are counted without bound; a response shows the count as a saturating `u32`.
-/

namespace Runlimit

/-- A span of nanoseconds, as a delay. -/
def Delay.ofNanos (nanos : ℕ) : Delay := ⟨⟨min nanos maxNanos, min_le_right _ _⟩⟩

namespace QuotaPeriod

def nanos (p : QuotaPeriod) : ℕ := p.millis * 10 ^ 6

end QuotaPeriod

/-- The delay after some failures in a row: it doubles up to the maximum. -/
def AttemptPolicy.delayNanos (policy : AttemptPolicy) (failures : ℕ) : ℕ :=
  if failures = 0 then 0 else min (policy.initialDelay.nanos * 2 ^ (failures - 1)) policy.maximumDelay.nanos

theorem AttemptPolicy.delayNanos_pos (policy : AttemptPolicy) {failures : ℕ} (h : failures ≠ 0) :
    0 < policy.delayNanos failures := by
  have hinitial := policy.initialDelay.pos
  have hmaximum := policy.maximumDelay.pos
  unfold AttemptPolicy.delayNanos QuotaPeriod.nanos
  rw [if_neg h]
  refine lt_min (Nat.mul_pos (by omega) (Nat.two_pow_pos _)) (by omega)

/-- The state of a key. -/
inductive EagerKey where
  | initial
  /-- An attempt is in flight, after so many failures. -/
  | leased (failures generation deadline : ℕ)
  /-- The last of so many failures in a row was at this time. -/
  | failed (failures time : ℕ)
  deriving DecidableEq

namespace EagerKey

variable (policy : AttemptPolicy) (now : ℕ)

/-- The failures in a row. -/
def failures : EagerKey → ℕ
  | .initial => 0
  | .leased failures _ _ => failures
  | .failed failures _ => failures

/-- A quiet period after its last failure a key starts over. -/
def quiet : EagerKey → EagerKey
  | .failed failures time =>
    if time + policy.quietPeriod.nanos ≤ now then .initial else .failed failures time
  | key => key

/-- The transitions that are due by a time: a lease fails at its deadline, and then the key may
have been quiet since. -/
def elapse : EagerKey → EagerKey
  | .leased failures generation deadline =>
    if deadline ≤ now then quiet policy now (.failed (failures + 1) deadline)
    else .leased failures generation deadline
  | key => quiet policy now key

/-- An admission, which would get this receipt, at a time up to which the transitions were made. -/
def tryAdmit (receipt : MemoryAttemptReceipt) : EagerKey → AttemptAdmission MemoryAttemptReceipt × EagerKey
  | .initial => (.admitted receipt, .leased 0 receipt.generation (now + policy.lease.nanos))
  | .leased failures generation deadline =>
    (.denied (.busy (.ofNanos (deadline - now))), .leased failures generation deadline)
  | .failed failures time =>
    if now < time + policy.delayNanos failures then
      (.denied (.backoff (.ofNanos (time + policy.delayNanos failures - now))), .failed failures time)
    else (.admitted receipt, .leased failures receipt.generation (now + policy.lease.nanos))

theorem failure_valid {outcome : AttemptOutcome} (houtcome : outcome ≠ .success) {failures : ℕ}
    (h : failures ≠ 0) :
    outcome.consistent (min failures u32Max) (.ofNanos (policy.delayNanos failures)) = true := by
  have hcount : 0 < min failures u32Max := lt_min (Nat.pos_of_ne_zero h) (by decide)
  have hdelay : min (policy.delayNanos failures) maxNanos ≠ 0 :=
    (lt_min (policy.delayNanos_pos h) (by decide)).ne'
  cases outcome with
  | success => exact absurd rfl houtcome
  | failure => simp [AttemptOutcome.consistent, Delay.ofNanos, hcount, hdelay]
  | abandoned => simp [AttemptOutcome.consistent, Delay.ofNanos, hcount, hdelay]

/-- A completion with this receipt, presented to the store of the key. -/
def complete (store : StoreId) (receipt : MemoryAttemptReceipt) (outcome : AttemptOutcome) :
    EagerKey → AttemptCompletionResult × EagerKey
  | .leased failures generation deadline =>
    if receipt.store = store ∧ generation = receipt.generation then
      if h : outcome = .success then
        (.applied ⟨outcome, 0, ⟨Duration.zero⟩, by rw [h]; rfl⟩, .initial)
      else
        (.applied ⟨outcome, min (failures + 1) u32Max, .ofNanos (policy.delayNanos (failures + 1)),
          failure_valid policy h (Nat.succ_ne_zero failures)⟩, .failed (failures + 1) now)
    else (.stale, .leased failures generation deadline)
  | key => (.stale, key)

end EagerKey

/-- The denials and errors that are about storage. -/
def AttemptResponse.Unavailable (response : AttemptResponse) : Prop :=
  response = .tryAdmit (.returned (.ok (.denied .storageCapacity))) ∨
    response = .tryAdmit (.returned (.error .sequenceExhausted))

instance (response : AttemptResponse) : Decidable response.Unavailable :=
  inferInstanceAs (Decidable (_ ∨ _))

/-- The machine of a key: how many receipts its store has issued, and the state of the key. -/
structure Eager where
  issued : ℕ
  key : EagerKey

namespace Eager

variable [Sha2] (policy : AttemptPolicy) (store : StoreId) (key : AttemptKey)

def new : Eager := ⟨0, .initial⟩

/-- The state of the key when an event happens. -/
def due (eager : Eager) (event : AttemptEvent) : EagerKey := eager.key.elapse policy event.now.nanos

/-- The receipt an admission would get. -/
def receipt (eager : Eager) : MemoryAttemptReceipt := ⟨store, key, eager.issued + 1⟩

/-- The machine after an event. An event about another key, and an admission that failed for lack
of storage, leave the key alone. -/
def observe (eager : Eager) (event : AttemptEvent) : Eager where
  issued := eager.issued + if event.response.receipt.isSome then 1 else 0
  key :=
    if event.request.key = key ∧ ¬ event.response.Unavailable then
      match event.request with
      | .tryAdmit _ =>
        ((eager.due policy event).tryAdmit policy event.now.nanos (eager.receipt store key)).2
      | .complete receipt outcome =>
        ((eager.due policy event).complete policy event.now.nanos store receipt outcome).2
    else eager.due policy event

/-- The machine after some events. -/
def after (events : List AttemptEvent) : Eager := events.foldl (observe policy store key) new

/-- The response to an event is the one of the machine. -/
def Answers (eager : Eager) (event : AttemptEvent) : Prop :=
  match event.request with
  | .tryAdmit _ => event.response.Unavailable ∨
      event.response = .tryAdmit (.returned (.ok
        ((eager.due policy event).tryAdmit policy event.now.nanos (eager.receipt store key)).1))
  | .complete receipt outcome =>
      event.response = .complete (.returned (.ok
        ((eager.due policy event).complete policy event.now.nanos store receipt outcome).1))

end Eager

end Runlimit
