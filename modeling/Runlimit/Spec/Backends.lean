import Runlimit.Spec.PgAttempts

/-!
# The two attempt backends, call by call

The same calls go to a `MemoryAttemptLimiter` and to a `PostgresAttemptLimiter`, one after the other and at the same
whole milliseconds. A completion presents, to each, the receipt of an admission that both have granted; it may be late,
or presented before. What PostgreSQL decides in an admission (its cleanup, the token) comes with the call.
-/

namespace Runlimit

inductive PairedRequest where
  | tryAdmit (subject : AttemptSubject) (sweep : PgAttempts.Sweep) (token : LeaseToken)
  /-- With the receipts of this admission, of those that were granted. -/
  | complete (admission : ℕ) (outcome : AttemptOutcome)

structure PairedCall where
  nowMs : ℕ
  request : PairedRequest

/-- The token that PostgreSQL generates for an admission. -/
def PairedRequest.token : PairedRequest → Option LeaseToken
  | .tryAdmit _ _ token => some token
  | .complete _ _ => none

/-- The cleanup of an admission is done by the time the admission decides. -/
def PairedCall.Sampled (call : PairedCall) : Prop :=
  ∀ subject sweep token, call.request = .tryAdmit subject sweep token → sweep.sampledAtMs ≤ call.nowMs

/-- The policies of the admissions. -/
def pairedPolicies (calls : List PairedCall) : Set AttemptPolicy :=
  { policy | ∃ call ∈ calls, ∃ subject sweep token,
      call.request = .tryAdmit subject sweep token ∧ subject.policy = policy }

inductive PgAttemptResponse where
  | tryAdmit (result : Except PgCheckError (AttemptAdmission PgAttemptReceipt))
  | complete (result : Except PgCheckError AttemptCompletionResult)

def PgAttemptResponse.receipt : PgAttemptResponse → Option PgAttemptReceipt
  | .tryAdmit (.ok (.admitted receipt)) => some receipt
  | _ => none

structure PairedResponse where
  memory : AttemptResponse
  postgres : PgAttemptResponse

/-- A denial for lack of room. -/
def AttemptAdmission.full {R : Type} : AttemptAdmission R → Bool
  | .denied .storageCapacity => true
  | _ => false

namespace PairedResponse

/-- Neither backend reports a full store or a fault. -/
def served (response : PairedResponse) : Bool :=
  match response.memory, response.postgres with
  | .tryAdmit (.returned (.ok memory)), .tryAdmit (.ok postgres) => !memory.full && !postgres.full
  | .complete (.returned (.ok _)), .complete (.ok _) => true
  | _, _ => false

/-- Both backends answer the same, up to the receipts. -/
def Agrees (response : PairedResponse) : Prop :=
  match response.memory, response.postgres with
  | .tryAdmit (.returned (.ok (.admitted _))), .tryAdmit (.ok (.admitted _)) => True
  | .tryAdmit (.returned (.ok (.denied memory))), .tryAdmit (.ok (.denied postgres)) => memory = postgres
  | .complete (.returned (.ok memory)), .complete (.ok postgres) => memory = postgres
  | _, _ => False

end PairedResponse

/-- The backends, and the receipts of the admissions that both have granted. -/
structure Backends where
  memory : Mutex AttemptState
  rows : AttemptRows
  receipts : List (MemoryAttemptReceipt × PgAttemptReceipt)

namespace Backends

variable [Sha2] (capacity : ℕ) (store : StoreId) (config : PostgresConfig)

def new : Backends := ⟨MemoryAttemptLimiter.new, PgAttempts.migrated, []⟩

/-- The receipts of an admission, if both have granted it. -/
def granted (response : PairedResponse) : Option (MemoryAttemptReceipt × PgAttemptReceipt) := do
  return (← response.memory.receipt, ← response.postgres.receipt)

/-- A call; there is no answer to a completion without receipts. -/
def serve (call : PairedCall) (backends : Backends) : Option PairedResponse × Backends :=
  match call.request with
  | .tryAdmit subject sweep token =>
    let (memory, state) := MemoryAttemptLimiter.answer capacity store
      ⟨Duration.fromMillis call.nowMs, .tryAdmit subject⟩ backends.memory
    let (result, rows) := PgAttempts.tryAdmit config ⟨sweep, call.nowMs, token⟩ subject backends.rows
    let response : PairedResponse := ⟨memory, .tryAdmit result⟩
    (some response, ⟨state, rows, backends.receipts ++ (granted response).toList⟩)
  | .complete admission outcome =>
    match backends.receipts[admission]? with
    | none => (none, backends)
    | some (memoryReceipt, receipt) =>
      let (memory, state) := MemoryAttemptLimiter.answer capacity store
        ⟨Duration.fromMillis call.nowMs, .complete memoryReceipt outcome⟩ backends.memory
      let (result, rows) := PgAttempts.complete call.nowMs receipt outcome backends.rows
      (some ⟨memory, .complete result⟩, ⟨state, rows, backends.receipts⟩)

/-- The answers to some calls. -/
def run (calls : List PairedCall) : List (Option PairedResponse) :=
  Machine.outputs (serve capacity store config) new calls

end Backends

end Runlimit
