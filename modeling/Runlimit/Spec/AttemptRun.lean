import Runlimit.Machine.Run
import Runlimit.Spec.Attempts

/-!
# Runs of attempt limiters

A run of a limiter is a sequence of calls with one clock reading each; a receipt that a call
presents may be any receipt, of this store or another. A system is any number of limiters, whose
calls interleave in any order.
-/

namespace Runlimit

variable [Sha2]

inductive AttemptRequest where
  | tryAdmit (subject : AttemptSubject)
  | complete (receipt : MemoryAttemptReceipt) (outcome : AttemptOutcome)

/-- The key a subject is stored under. -/
def AttemptSubject.key (subject : AttemptSubject) : AttemptKey :=
  ⟨subject.policy.fingerprint, subject.subject⟩

/-- The key a request is about. -/
def AttemptRequest.key : AttemptRequest → AttemptKey
  | .tryAdmit subject => subject.key
  | .complete receipt _ => receipt.key

structure AttemptCall where
  reading : Duration
  request : AttemptRequest

inductive AttemptResponse where
  | tryAdmit (result : CallResult (Except MemoryAttemptError (AttemptAdmission MemoryAttemptReceipt)))
  | complete (result : CallResult (Except MemoryAttemptCompletionError AttemptCompletionResult))
  deriving DecidableEq

/-- One call of a run: the time it was evaluated at, the request and the response. -/
structure AttemptEvent where
  now : Duration
  request : AttemptRequest
  response : AttemptResponse

namespace AttemptResponse

/-- The receipt of an admission. -/
def receipt : AttemptResponse → Option MemoryAttemptReceipt
  | .tryAdmit (.returned (.ok (.admitted receipt))) => some receipt
  | _ => none

/-- A completion was applied. -/
def applied : AttemptResponse → Bool
  | .complete (.returned (.ok (.applied _))) => true
  | _ => false

end AttemptResponse

namespace AttemptEvent

/-- The event admits an attempt of the key. -/
def Admits (event : AttemptEvent) (key : AttemptKey) : Prop :=
  event.request.key = key ∧ event.response.receipt.isSome = true

/-- The event applies a completion with this receipt and outcome. -/
def Completes (event : AttemptEvent) (receipt : MemoryAttemptReceipt) (outcome : AttemptOutcome) : Prop :=
  event.request = .complete receipt outcome ∧ event.response.applied = true

end AttemptEvent

namespace MemoryAttemptLimiter

def answer (capacity : ℕ) (store : StoreId) (call : AttemptCall) (state : Mutex AttemptState) :
    AttemptResponse × Mutex AttemptState :=
  match call.request with
  | .tryAdmit subject =>
    let (result, state) := tryAdmit capacity store (.ok call.reading) subject state
    (.tryAdmit result, state)
  | .complete receipt outcome =>
    let (result, state) := complete store (.ok call.reading) receipt outcome state
    (.complete result, state)

def serve (capacity : ℕ) (store : StoreId) (call : AttemptCall) (state : Mutex AttemptState) :
    AttemptEvent × Mutex AttemptState :=
  (⟨max state.data.now call.reading, call.request, (answer capacity store call state).1⟩,
    (answer capacity store call state).2)

def new : Mutex AttemptState := ⟨AttemptState.new, false⟩

/-- The events of a run of a new limiter. -/
def run (capacity : ℕ) (store : StoreId) (calls : List AttemptCall) : List AttemptEvent :=
  Machine.outputs (serve capacity store) new calls

/-- The limiter a run ends in. -/
def after (capacity : ℕ) (store : StoreId) (calls : List AttemptCall) : Mutex AttemptState :=
  Machine.final (serve capacity store) new calls

end MemoryAttemptLimiter

/-! ## Systems of limiters -/

structure SystemCall where
  store : StoreId
  call : AttemptCall

structure SystemEvent where
  store : StoreId
  event : AttemptEvent

/-- The limiters of a system, by store. -/
abbrev AttemptSystem := StoreId → Mutex AttemptState

namespace AttemptSystem

def new : AttemptSystem := fun _ => MemoryAttemptLimiter.new

def serve (capacity : StoreId → ℕ) (c : SystemCall) (system : AttemptSystem) :
    SystemEvent × AttemptSystem :=
  let (event, state) := MemoryAttemptLimiter.serve (capacity c.store) c.store c.call (system c.store)
  (⟨c.store, event⟩, Function.update system c.store state)

def run (capacity : StoreId → ℕ) (calls : List SystemCall) : List SystemEvent :=
  Machine.outputs (serve capacity) new calls

def after (capacity : StoreId → ℕ) (calls : List SystemCall) : AttemptSystem :=
  Machine.final (serve capacity) new calls

end AttemptSystem

end Runlimit
