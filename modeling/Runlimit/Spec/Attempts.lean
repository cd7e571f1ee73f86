import Runlimit.Finite.Table
import Runlimit.Spec.Policy

/-!
# Outcome-aware attempts and the memory attempt limiter

An attempt is admitted with a lease and a receipt, and completed once, by its receipt. Failures
in a row delay the next admission; a lease that runs out counts as one. `MemoryAttemptLimiter`
notices that a lease has run out, or that a key has been quiet, only when the key is admitted
again (`reconcile`) or when its cursor comes past (`cleanup`).

Observers are left out: they see every response and change nothing.
-/

namespace Runlimit

/-! ## `runlimit_core::attempts` -/

/-- A subject bound to the policy it was derived for. -/
structure AttemptSubject where
  policy : AttemptPolicy
  subject : SubjectKey

inductive AttemptDenial where
  | busy (retryAfter : Delay)
  | backoff (retryAfter : Delay)
  | storageCapacity
  deriving DecidableEq

inductive AttemptAdmission (R : Type) where
  | admitted (receipt : R)
  | denied (denial : AttemptDenial)
  deriving DecidableEq

inductive AttemptOutcome where
  | success
  | failure
  | abandoned
  deriving DecidableEq, Repr

/-- What `AttemptCompletion::new` checks: success has no failures and no delay, anything else
has both. -/
def AttemptOutcome.consistent (outcome : AttemptOutcome) (consecutiveFailures : ℕ) (retryAfter : Delay) :
    Bool :=
  match outcome with
  | .success => decide (consecutiveFailures = 0) && decide (retryAfter.duration.nanos = 0)
  | .failure | .abandoned => decide (0 < consecutiveFailures) && !decide (retryAfter.duration.nanos = 0)

structure AttemptCompletion where
  outcome : AttemptOutcome
  consecutiveFailures : ℕ
  retryAfter : Delay
  valid : outcome.consistent consecutiveFailures retryAfter = true
  deriving DecidableEq

structure AttemptCompletionError where
  deriving DecidableEq, Repr

def AttemptCompletion.new (outcome : AttemptOutcome) (consecutiveFailures : ℕ) (retryAfter : Delay) :
    Except AttemptCompletionError AttemptCompletion :=
  if h : outcome.consistent consecutiveFailures retryAfter = true then
    .ok ⟨outcome, consecutiveFailures, retryAfter, h⟩
  else .error ⟨⟩

inductive AttemptCompletionResult where
  | applied (completion : AttemptCompletion)
  | stale
  deriving DecidableEq

/-! ## `runlimit_memory::attempts` -/

/-- `Key`: a policy fingerprint and a subject, in that order. -/
abbrev AttemptKey := CounterKey

/-- `attempts::Entry`. -/
structure AttemptEntry where
  policy : AttemptPolicy
  failures : ℕ
  lastFailure : Duration
  retryAt : Duration
  /-- The generation of the attempt in flight and when its lease ends. -/
  lease : Option (ℕ × Duration)

/-- `attempts::State`. -/
structure AttemptState where
  entries : Table AttemptKey AttemptEntry
  generation : ℕ
  now : Duration
  cursor : Option AttemptKey

def AttemptState.new : AttemptState := ⟨∅, 0, Duration.zero, none⟩

/-- What `Weak::ptr_eq` compares: the allocation of a store's state. -/
abbrev StoreId := ℕ

structure MemoryAttemptReceipt where
  store : StoreId
  key : AttemptKey
  generation : ℕ
  deriving DecidableEq

inductive MemoryAttemptError where
  | poisoned
  | sequenceExhausted
  deriving DecidableEq, Repr

structure MemoryAttemptCompletionError where
  deriving DecidableEq, Repr

namespace AttemptEntry

def fail (entry : AttemptEntry) (now : Duration) : AttemptEntry :=
  let failures := min (entry.failures + 1) u32Max
  { entry with
    failures
    lastFailure := now
    retryAt := now.saturatingAdd (entry.policy.delay failures) }

/-- The first half of `reconcile`: a lease that has run out is a failure at its end. -/
def expireLease (entry : AttemptEntry) (now : Duration) : AttemptEntry :=
  match entry.lease with
  | some (_, deadline) => if deadline ≤ now then fail { entry with lease := none } deadline else entry
  | none => entry

/-- The second half of `reconcile`: a quiet key starts over. -/
def forgetFailures (entry : AttemptEntry) (now : Duration) : AttemptEntry :=
  if entry.lease = none ∧ entry.lastFailure.saturatingAdd entry.policy.quietPeriod.duration ≤ now then
    { entry with failures := 0, retryAt := now }
  else entry

def reconcile (entry : AttemptEntry) (now : Duration) : AttemptEntry :=
  (entry.expireLease now).forgetFailures now

def deny (entry : AttemptEntry) (now : Duration) : Option AttemptDenial :=
  match entry.lease with
  | some (_, deadline) => some (.busy ⟨deadline.saturatingSub now⟩)
  | none => if now < entry.retryAt then some (.backoff ⟨entry.retryAt.saturatingSub now⟩) else none

/-- What `cleanup` removes. -/
def removable (entry : AttemptEntry) (now : Duration) : Bool :=
  let origin := match entry.lease with
    | some (_, deadline) => deadline
    | none => entry.lastFailure
  decide (origin.saturatingAdd entry.policy.quietPeriod.duration ≤ now)

end AttemptEntry

namespace AttemptState

/-- The keys `cleanup` examines: at most 16, in order, after the cursor. -/
def examined (state : AttemptState) : List AttemptKey :=
  match state.cursor with
  | some cursor => ((state.entries.keys.filter (cursor < ·)).sort (· ≤ ·)).take 16
  | none => (state.entries.keys.sort (· ≤ ·)).take 16

/-- The loop of `cleanup`. -/
def removeQuiet (now : Duration) : List AttemptKey → Table AttemptKey AttemptEntry → Table AttemptKey AttemptEntry
  | [], entries => entries
  | key :: keys, entries =>
    match entries.lookup key with
    | some entry =>
      if entry.removable now then removeQuiet now keys (entries.erase key)
      else removeQuiet now keys entries
    | none => removeQuiet now keys entries

def cleanup (state : AttemptState) (now : Duration) : AttemptState :=
  let keys := state.examined
  { state with entries := removeQuiet now keys state.entries, cursor := keys.getLast? }

end AttemptState

/-- `attempts::completion`. -/
def completion (outcome : AttemptOutcome) (failures : ℕ) (delay : Duration) : Panics AttemptCompletion :=
  expectOk "policy transition produces consistent completion metadata"
    (AttemptCompletion.new outcome failures ⟨delay⟩)

namespace MemoryAttemptLimiter

/-- The second half of `admit`, for a key that is not denied: it takes the next generation and
leases the entry, which is created if there is none. -/
def reserve (store : StoreId) (now : Duration) (policy : AttemptPolicy) (key : AttemptKey)
    (state : AttemptState) :
    Except MemoryAttemptError (AttemptAdmission MemoryAttemptReceipt) × AttemptState :=
  if u64Max < state.generation + 1 then (.error .sequenceExhausted, state)
  else
    let generation := state.generation + 1
    let entry := (state.entries.lookup key).getD ⟨policy, 0, now, now, none⟩
    let entry := { entry with
      lease := some (generation, now.saturatingAdd entry.policy.lease.duration) }
    (.ok (.admitted ⟨store, key, generation⟩),
      { state with entries := state.entries.insert key entry, generation })

/-- What `admit` does while it holds the lock, after it has read the clock. -/
def admitLocked (capacity : ℕ) (store : StoreId) (reading : Duration) (policy : AttemptPolicy)
    (key : AttemptKey) (state : AttemptState) :
    Except MemoryAttemptError (AttemptAdmission MemoryAttemptReceipt) × AttemptState :=
  let now := max state.now reading
  let state := { state with now }.cleanup now
  match state.entries.lookup key with
  | some entry =>
    let entry := entry.reconcile now
    let state := { state with entries := state.entries.insert key entry }
    match entry.deny now with
    | some denial => (.ok (.denied denial), state)
    | none => reserve store now policy key state
  | none =>
    if capacity ≤ state.entries.keys.card then (.ok (.denied .storageCapacity), state)
    else reserve store now policy key state

/-- `MemoryAttemptLimiter::admit`. -/
def tryAdmit [Sha2] (capacity : ℕ) (store : StoreId) (clock : Panics Duration) (subject : AttemptSubject)
    (state : Mutex AttemptState) :
    CallResult (Except MemoryAttemptError (AttemptAdmission MemoryAttemptReceipt)) × Mutex AttemptState :=
  let policy := subject.policy
  let key : AttemptKey := ⟨policy.fingerprint, subject.subject⟩
  if state.poisoned then (.returned (.error .poisoned), state)
  else match clock with
    | .error _ => (.panicked, { state with poisoned := true })
    | .ok reading =>
      let (result, data) := admitLocked capacity store reading policy key state.data
      (.returned result, { state with data })

/-- What `complete` does while it holds the lock, after it has read the clock. -/
def completeLocked (store : StoreId) (reading : Duration) (receipt : MemoryAttemptReceipt)
    (outcome : AttemptOutcome) (state : AttemptState) : Panics (AttemptCompletionResult × AttemptState) :=
  let now := max state.now reading
  let state := { state with now }
  let validStore := decide (receipt.store = store)
  match state.entries.lookup receipt.key with
  | none => pure (.stale, state)
  | some entry =>
    if validStore && entry.lease.any fun (generation, deadline) =>
        decide (generation = receipt.generation) && decide (now < deadline) then
      let entry := { entry with lease := none }
      if outcome = .success then do
        let completion ← completion outcome 0 Duration.zero
        return (.applied completion, { state with entries := state.entries.erase receipt.key })
      else do
        let entry := entry.fail now
        let completion ← completion outcome entry.failures (entry.policy.delay entry.failures)
        return (.applied completion, { state with entries := state.entries.insert receipt.key entry })
    else pure (.stale, state)

/-- `MemoryAttemptLimiter::complete`. A call that unwinds leaves the mutex poisoned, and then no
call reads the data again. -/
def complete (store : StoreId) (clock : Panics Duration) (receipt : MemoryAttemptReceipt)
    (outcome : AttemptOutcome) (state : Mutex AttemptState) :
    CallResult (Except MemoryAttemptCompletionError AttemptCompletionResult) × Mutex AttemptState :=
  if state.poisoned then (.returned (.error ⟨⟩), state)
  else match (do completeLocked store (← clock) receipt outcome state.data) with
    | .error _ => (.panicked, { state with poisoned := true })
    | .ok (result, data) => (.returned (.ok result), { state with data })

end MemoryAttemptLimiter

end Runlimit
