import Runlimit.Field.Structured
import Runlimit.Spec.Decision

/-!
# The response fields of `runlimit_http::draft_11`

Both fields carry one member, a policy name and two numbers. Text is a list of characters, and a
header value is its UTF-8. Which bytes `HeaderValue::try_from` accepts is a matter of the `http`
crate: the predicate `accepts`.
-/

namespace Runlimit

/-- `Delay::seconds`: whole seconds, rounded up. -/
def Delay.seconds (delay : Delay) : ℕ :=
  let seconds := delay.duration.nanos / 10 ^ 9
  if delay.duration.nanos % 10 ^ 9 = 0 then seconds else min (seconds + 1) u64Max

namespace Draft11

/-- `MAX_STRUCTURED_FIELD_INTEGER`. -/
def maxStructuredFieldInteger : ℕ := 999999999999999

/-- `MAX_POLICY_NAME_LENGTH`. -/
def maxPolicyNameLength : ℕ := 128

/-- `HeaderField`: a name and a value. -/
structure HeaderField where
  name : String
  value : List UInt8
  deriving DecidableEq, Repr

/-- The quota state a `RateLimit` field can describe. -/
inductive QuotaState where
  | available (allowance : Allowance)
  | exhausted (denial : QuotaDenial)

inductive EncodingError where
  | emptyPolicyName
  | policyNameTooLong (actual maximum : ℕ)
  | invalidPolicyNameCharacter (index : ℕ) (character : Char)
  | structuredFieldIntegerTooLarge (actual maximum : ℕ)
  | quotaPeriodNotWholeSeconds (actual : Duration)
  deriving DecidableEq, Repr

/-- The loop of `encode_policy_name`, from this byte index on, with the quote after it. -/
def encodeCharacters : ℕ → List Char → Except EncodingError (List Char)
  | _, [] => .ok ['"']
  | index, character :: rest =>
    if ¬(' ' ≤ character ∧ character ≤ '~') then .error (.invalidPolicyNameCharacter index character)
    else do
      let encoded ← encodeCharacters (index + character.utf8Size) rest
      if character = '"' ∨ character = '\\' then return '\\' :: character :: encoded
      else return character :: encoded

def encodePolicyName (name : String) : Except EncodingError (List Char) :=
  if name.isEmpty then .error .emptyPolicyName
  else if maxPolicyNameLength < name.utf8ByteSize then
    .error (.policyNameTooLong name.utf8ByteSize maxPolicyNameLength)
  else do return '"' :: (← encodeCharacters 0 name.toList)

def structuredInteger (value : ℕ) : Except EncodingError ℕ :=
  if maxStructuredFieldInteger < value then
    .error (.structuredFieldIntegerTooLarge value maxStructuredFieldInteger)
  else .ok value

section Fields

variable (accepts : List UInt8 → Bool)

/-- `header_value`. -/
def headerValue (value : List Char) : Panics (List UInt8) :=
  let bytes := value.flatMap String.utf8EncodeChar
  expectSome "validated policy names and Structured Field literals are visible ASCII"
    (if accepts bytes then some bytes else none)

/-- What `quota_policy` puts into its value. -/
def quotaPolicyText {P : Type} [RateLimitPolicy P] (name : String) (policy : P) : Except EncodingError (List Char) := do
  let name ← encodePolicyName name
  let quota ← structuredInteger (RateLimitPolicy.quota policy).get
  let period := RateLimitPolicy.quotaPeriod policy
  if ¬ 1000 ∣ period.millis then throw (.quotaPeriodNotWholeSeconds period.duration)
  else
    let period ← structuredInteger (period.millis / 1000)
    return name ++ ";q=".toList ++ decimal quota ++ ";w=".toList ++ decimal period

/-- What `service_limit` puts into its value. -/
def serviceLimitText (name : String) (state : QuotaState) : Except EncodingError (List Char) := do
  let name ← encodePolicyName name
  let (available, effectiveWindow) := match state with
    | .available allowance => (allowance.available, allowance.replenishesAfter.seconds)
    | .exhausted denial => (0, denial.retryAfter.seconds)
  let available ← structuredInteger available
  let effectiveWindow ← structuredInteger effectiveWindow
  return name ++ ";r=".toList ++ decimal available ++ ";t=".toList ++ decimal effectiveWindow

/-- A field with this name, of text that may have been refused. -/
def fieldOf (name : String) : Except EncodingError (List Char) → Panics (Except EncodingError HeaderField)
  | .error error => .ok (.error error)
  | .ok text => do return .ok ⟨name, ← headerValue accepts text⟩

def quotaPolicy {P : Type} [RateLimitPolicy P] (name : String) (policy : P) :
    Panics (Except EncodingError HeaderField) :=
  fieldOf accepts "ratelimit-policy" (quotaPolicyText name policy)

def serviceLimit (name : String) (state : QuotaState) : Panics (Except EncodingError HeaderField) :=
  fieldOf accepts "ratelimit" (serviceLimitText name state)

end Fields

end Draft11

end Runlimit
