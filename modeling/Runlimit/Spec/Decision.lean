import Runlimit.Spec.Policy
import Runlimit.Finite.Table

/-!
# Checks, decisions and batch validation

The backend-independent vocabulary of admission: a `Check` is a policy, a subject and a
cost the policy can ever grant; a decision is an allowance, an enforced denial, or a
quota denial that a shadow policy only reports. A batch is decided as a whole.
-/

namespace Runlimit

/-! ## Checks -/

/-- One proposed quota charge. -/
structure Check (P : Type) [RateLimitPolicy P] where
  policy : P
  subject : SubjectKey
  cost : ℕ
  cost_pos : 0 < cost
  cost_le : cost ≤ (RateLimitPolicy.capacity policy).get

inductive CheckError where
  | zeroCost
  | costExceedsCapacity (cost : ℕ) (capacity : Capacity)
  deriving DecidableEq

namespace Check

variable {P : Type} [RateLimitPolicy P]

/-- `Check::new`: a bound subject, at the default cost of one. -/
def new (policy : P) (subject : SubjectKey) : Check P :=
  ⟨policy, subject, 1, Nat.one_pos, (RateLimitPolicy.capacity policy).pos⟩

def withCost (check : Check P) (cost : ℕ) : Except CheckError (Check P) :=
  if h0 : cost = 0 then .error .zeroCost
  else if h : (RateLimitPolicy.capacity check.policy).get < cost then
    .error (.costExceedsCapacity cost (RateLimitPolicy.capacity check.policy))
  else .ok { check with cost, cost_pos := Nat.pos_of_ne_zero h0, cost_le := Nat.not_lt.1 h }

/-- The identity of the counter this check charges. -/
def counterKey (check : Check P) : CounterKey :=
  ⟨RateLimitPolicy.fingerprint check.policy, check.subject⟩

def quotaMode (check : Check P) : QuotaMode := RateLimitPolicy.quotaMode check.policy

end Check

/-! ## Decisions -/

inductive DecisionError where
  | availableExceedsCapacity (capacity : Capacity) (available : ℕ)
  | deniedIndexOutOfRange (index batchSize : ℕ)
  | emptyBatch
  deriving DecidableEq

structure QuotaDenial where
  capacity : Capacity
  retryAfter : Delay
  deriving DecidableEq

/-- `QuotaDenial::new`. -/
def QuotaDenial.new (capacity : Capacity) (retryAfter : Duration) : QuotaDenial :=
  ⟨capacity, ⟨retryAfter⟩⟩

/-- An enforced denial, by reason. -/
inductive Denial where
  | quotaExceeded (denial : QuotaDenial)
  | storageCapacity (retryAfter : Option Delay)
  deriving DecidableEq

structure Allowance where
  capacity : Capacity
  available : ℕ
  replenishesAfter : Delay
  available_le : available ≤ capacity.get
  deriving DecidableEq

/-- `Allowance::new`. -/
def Allowance.new (capacity : Capacity) (available : ℕ) (replenishesAfter : Duration) :
    Except DecisionError Allowance :=
  if h : capacity.get < available then .error (.availableExceedsCapacity capacity available)
  else .ok ⟨capacity, available, ⟨replenishesAfter⟩, Nat.not_lt.1 h⟩

/-- The outcome of one check. -/
inductive Decision where
  | allowed (allowance : Allowance)
  | denied (denial : Denial)
  | shadowDenied (denial : QuotaDenial)
  deriving DecidableEq

/-- The decision for an exceeded quota: only a shadow policy lets the request through. -/
def Decision.quotaExceeded (mode : QuotaMode) (denial : QuotaDenial) : Decision :=
  if mode = .shadow then .shadowDenied denial else .denied (.quotaExceeded denial)

inductive BatchOutcome where
  | allowed (allowances : List Allowance)
  | denied (index batchSize : ℕ) (denial : Denial)
  | shadowDenied (index batchSize : ℕ) (denial : QuotaDenial)
  deriving DecidableEq

/-- The atomic outcome of a batch. -/
structure BatchDecision where
  outcome : BatchOutcome
  deriving DecidableEq

/-- `validate_batch_index`. -/
def validateBatchIndex (index batchSize : ℕ) : Except DecisionError ℕ :=
  if index < batchSize then .ok batchSize else .error (.deniedIndexOutOfRange index batchSize)

namespace BatchDecision

def allowed (allowances : List Allowance) : Except DecisionError BatchDecision :=
  if allowances.isEmpty then .error .emptyBatch else .ok ⟨.allowed allowances⟩

def denied (index batchSize : ℕ) (denial : Denial) : Except DecisionError BatchDecision := do
  let batchSize ← validateBatchIndex index batchSize
  return ⟨.denied index batchSize denial⟩

def shadowDenied (index batchSize : ℕ) (denial : QuotaDenial) : Except DecisionError BatchDecision := do
  let batchSize ← validateBatchIndex index batchSize
  return ⟨.shadowDenied index batchSize denial⟩

/-- The batch decision for an exceeded quota. -/
def quotaExceeded (mode : QuotaMode) (index batchSize : ℕ) (denial : QuotaDenial) :
    Except DecisionError BatchDecision :=
  if mode = .shadow then shadowDenied index batchSize denial
  else denied index batchSize (.quotaExceeded denial)

end BatchDecision

/-! ## Batch validation -/

inductive BatchError where
  | emptyBatch
  | duplicateKey (firstIndex duplicateIndex : ℕ)
  | batchTooLarge (actual maximum : ℕ)
  | mixedQuotaModes (first : QuotaMode) (index : ℕ) (actual : QuotaMode)
  deriving DecidableEq, Repr

section ValidateBatch

variable {P : Type} [RateLimitPolicy P]

/-- The loop of `validate_batch`: `firstIndices` holds the index at which each key seen
so far occurred first. -/
def validateBatchLoop (firstMode : QuotaMode) :
    ℕ → Table CounterKey ℕ → List (Check P) → Except BatchError Unit
  | _, _, [] => .ok ()
  | index, firstIndices, check :: rest =>
    if check.quotaMode ≠ firstMode then .error (.mixedQuotaModes firstMode index check.quotaMode)
    else match firstIndices.lookup check.counterKey with
      | some firstIndex => .error (.duplicateKey firstIndex index)
      | none => validateBatchLoop firstMode (index + 1) (firstIndices.insert check.counterKey index) rest

/-- `batch::validate_batch`. -/
def validateBatch (checks : List (Check P)) (maximum : ℕ) : Except BatchError Unit :=
  match checks with
  | [] => .error .emptyBatch
  | first :: _ =>
    if maximum < checks.length then .error (.batchTooLarge checks.length maximum)
    else validateBatchLoop first.quotaMode 0 ∅ checks

end ValidateBatch

end Runlimit
