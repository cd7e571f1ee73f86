import Runlimit.Spec.Prim

/-!
# Identifiers, policies and storage keys

The validated values of `runlimit-core`: policy and scope identifiers, capacities
and periods, the fixed-window, GCRA and attempt policies with the byte layouts of
their fingerprints, and the keyed derivation of subject keys. A value that only a
checking constructor can build carries what the constructor checked.

SHA-256 and HMAC-SHA-256 come from the `sha2` and `hmac` crates, which are not part
of this repository: they are the parameter `Sha2`.
-/

namespace Runlimit

/-- The hash functions the core crate imports. -/
class Sha2 where
  sha256 : List UInt8 → Digest
  /-- HMAC of a message under a key (the key first). -/
  hmacSha256 : List UInt8 → List UInt8 → Digest

/-! ## Identifiers -/

/-- `MAX_IDENTIFIER_LENGTH`. -/
def maxIdentifierLength : ℕ := 128

inductive IdentifierError where
  | empty
  | tooLong (actual maximum : ℕ)
  | invalidCharacter (index : ℕ) (character : Char)
  deriving DecidableEq, Repr

/-- The token alphabet: ASCII letters, digits, `-`, `.`, `_`, `:` and `/`. -/
def tokenChar (c : Char) : Bool :=
  c.isAlphanum || c == '-' || c == '.' || c == '_' || c == ':' || c == '/'

/-- The character loop of `validate`, at byte index `index`. -/
def validateChars (index : ℕ) : List Char → Except IdentifierError Unit
  | [] => .ok ()
  | c :: cs =>
    if tokenChar c then validateChars (index + (String.utf8EncodeChar c).length) cs
    else .error (.invalidCharacter index c)

/-- `identifier::validate`. -/
def validate (value : String) : Except IdentifierError Unit :=
  if value.toList.isEmpty then .error .empty
  else if maxIdentifierLength < (strBytes value).length then
    .error (.tooLong (strBytes value).length maxIdentifierLength)
  else validateChars 0 value.toList

/-- A value of one of the two identifier types. -/
structure Identifier where
  asStr : String
  valid : validate asStr = .ok ()

instance : DecidableEq Identifier := fun a b =>
  decidable_of_iff (a.asStr = b.asStr) (by cases a; cases b; simp)

abbrev PolicyId := Identifier

abbrev ScopeId := Identifier

/-- `PolicyId::new` and `ScopeId::new`. -/
def Identifier.new (value : String) : Except IdentifierError Identifier :=
  match h : validate value with
  | .ok () => .ok ⟨value, h⟩
  | .error e => .error e

def Identifier.asBytes (id : Identifier) : List UInt8 := strBytes id.asStr

/-! ## Capacities and periods -/

/-- `MAX_LIMIT`: the largest signed 64-bit counter. -/
def maxLimit : ℕ := 2 ^ 63 - 1

/-- `MAX_WINDOW_MILLIS`: `2 ^ f64::MANTISSA_DIGITS / 1000`. -/
def maxWindowMillis : ℕ := 2 ^ 53 / 1000

@[ext]
structure Capacity where
  get : ℕ
  pos : 0 < get
  le_max : get ≤ maxLimit

instance : DecidableEq Capacity := fun a b => decidable_of_iff (a.get = b.get) Capacity.ext_iff.symm

inductive CapacityError where
  | zero
  | tooLarge (actual maximum : ℕ)
  deriving DecidableEq, Repr

def Capacity.new (value : ℕ) : Except CapacityError Capacity :=
  if h0 : value = 0 then .error .zero
  else if h : maxLimit < value then .error (.tooLarge value maxLimit)
  else .ok ⟨value, Nat.pos_of_ne_zero h0, Nat.not_lt.1 h⟩

@[ext]
structure QuotaPeriod where
  millis : ℕ
  pos : 0 < millis
  le_max : millis ≤ maxWindowMillis

instance : DecidableEq QuotaPeriod := fun a b =>
  decidable_of_iff (a.millis = b.millis) QuotaPeriod.ext_iff.symm

inductive QuotaPeriodError where
  | zero
  | notWholeMilliseconds
  | tooLarge (actual maximum : Duration)
  deriving DecidableEq

/-- `MAX_WINDOW`. -/
def maxWindow : Duration := Duration.fromMillis maxWindowMillis

/-- `QuotaPeriod::new`. The last two conversions of the source cannot fail after
the checks above them and are kept as errors there too. -/
def QuotaPeriod.new (period : Duration) : Except QuotaPeriodError QuotaPeriod :=
  if period.nanos = 0 then .error .zero
  else if ¬ 10 ^ 6 ∣ period.nanos % 10 ^ 9 then .error .notWholeMilliseconds
  else if maxWindow < period then .error (.tooLarge period maxWindow)
  else if h : maxWindowMillis < period.asMillis then .error (.tooLarge period maxWindow)
  else if h0 : period.asMillis = 0 then .error .zero
  else .ok ⟨period.asMillis, Nat.pos_of_ne_zero h0, Nat.not_lt.1 h⟩

def QuotaPeriod.duration (p : QuotaPeriod) : Duration := Duration.fromMillis p.millis

inductive QuotaMode where
  | enforce
  | shadow
  deriving DecidableEq, Repr

/-! ## Storage keys -/

abbrev PolicyFingerprint := Digest

abbrev SubjectKey := Digest

/-- The logical identity of one stored counter. -/
@[ext]
structure CounterKey where
  fingerprint : PolicyFingerprint
  subject : SubjectKey
  deriving DecidableEq

/-- `fingerprint || subject`, 64 bytes. -/
def CounterKey.toBytes (key : CounterKey) : List UInt8 := key.fingerprint.bytes ++ key.subject.bytes

theorem CounterKey.toBytes_injective : Function.Injective CounterKey.toBytes := by
  intro a b h
  have hlen : a.fingerprint.bytes.length = b.fingerprint.bytes.length := by
    rw [a.fingerprint.length_eq, b.fingerprint.length_eq]
  obtain ⟨h1, h2⟩ := List.append_inj h hlen
  exact CounterKey.ext (Digest.ext h1) (Digest.ext h2)

/-- The derived order: by fingerprint, then by subject. Both have a fixed width, so
this is the lexicographic order of the 64 bytes. -/
instance : LinearOrder CounterKey :=
  LinearOrder.lift' (fun k => k.toBytes.map UInt8.toNat) fun _ _ h =>
    CounterKey.toBytes_injective (List.map_injective_iff.2 (fun _ _ => UInt8.toNat_inj.1) h)

/-- `leading_u64`: the first eight bytes, little endian. -/
def leadingU64 (digest : Digest) : UInt64 :=
  UInt64.ofNat ((digest.bytes.take 8).foldr (fun byte acc => byte.toNat + 256 * acc) 0)

/-- `u64::rotate_left(32)`. -/
def rotateLeft32 (x : UInt64) : UInt64 := (x <<< 32) ||| (x >>> 32)

/-- `counter_key_hash`: the local shard and bucket hash of a counter key. -/
def counterKeyHash (key : CounterKey) : UInt64 :=
  leadingU64 key.subject ^^^ rotateLeft32 (leadingU64 key.fingerprint)

/-! ## Policies -/

/-- The trait every policy implements. -/
class RateLimitPolicy (P : Type) where
  id : P → PolicyId
  scope : P → ScopeId
  quota : P → Capacity
  quotaPeriod : P → QuotaPeriod
  /-- The largest single cost and immediately available allowance. -/
  capacity : P → Capacity
  fingerprint : P → PolicyFingerprint
  quotaMode : P → QuotaMode

/-- A field of the fingerprint layouts: the bytes and a NUL. -/
def nulTerminated (bytes : List UInt8) : List UInt8 := bytes ++ [0]

structure FixedWindowPolicy where
  id : PolicyId
  scope : ScopeId
  limit : Capacity
  window : QuotaPeriod
  quotaMode : QuotaMode
  deriving DecidableEq

/-- What `fingerprint` feeds to SHA-256. -/
def FixedWindowPolicy.preimage (p : FixedWindowPolicy) : List UInt8 :=
  nulTerminated (strBytes "runlimit/fixed-window-policy/v1") ++ nulTerminated p.id.asBytes ++
    nulTerminated p.scope.asBytes ++ toBeBytes p.limit.get ++ toBeBytes p.window.millis

def FixedWindowPolicy.fingerprint [Sha2] (p : FixedWindowPolicy) : PolicyFingerprint :=
  Sha2.sha256 p.preimage

inductive PolicyError where
  | zeroLimit
  | limitTooLarge (actual maximum : ℕ)
  | zeroWindow
  | windowNotWholeMilliseconds
  | windowTooLarge (actual maximum : Duration)
  deriving DecidableEq

def FixedWindowPolicy.new (id : PolicyId) (scope : ScopeId) (limit : ℕ) (window : Duration) :
    Except PolicyError FixedWindowPolicy :=
  match Capacity.new limit with
  | .error .zero => .error .zeroLimit
  | .error (.tooLarge actual maximum) => .error (.limitTooLarge actual maximum)
  | .ok limit =>
    match QuotaPeriod.new window with
    | .error .zero => .error .zeroWindow
    | .error .notWholeMilliseconds => .error .windowNotWholeMilliseconds
    | .error (.tooLarge actual maximum) => .error (.windowTooLarge actual maximum)
    | .ok window => .ok ⟨id, scope, limit, window, .enforce⟩

def FixedWindowPolicy.withQuotaMode (p : FixedWindowPolicy) (quotaMode : QuotaMode) :
    FixedWindowPolicy :=
  { p with quotaMode }

instance [Sha2] : RateLimitPolicy FixedWindowPolicy where
  id := (·.id)
  scope := (·.scope)
  quota := (·.limit)
  quotaPeriod := (·.window)
  capacity := (·.limit)
  fingerprint := (·.fingerprint)
  quotaMode := (·.quotaMode)

/-- A GCRA policy: `quota` units per `period`, at most `burstCapacity` at once, with
a full refill that lasts no longer than the portable window. -/
structure GcraPolicy where
  id : PolicyId
  scope : ScopeId
  quota : Capacity
  period : QuotaPeriod
  burstCapacity : Capacity
  quotaMode : QuotaMode
  refill_le : divCeil (burstCapacity.get * period.millis) quota.get ≤ maxWindowMillis

/-- What `gcra_fingerprint` feeds to SHA-256. -/
def GcraPolicy.preimage (p : GcraPolicy) : List UInt8 :=
  nulTerminated (strBytes "runlimit/gcra-policy/v1") ++ nulTerminated p.id.asBytes ++
    nulTerminated p.scope.asBytes ++ toBeBytes p.quota.get ++ toBeBytes p.period.millis ++
    toBeBytes p.burstCapacity.get

def GcraPolicy.fingerprint [Sha2] (p : GcraPolicy) : PolicyFingerprint := Sha2.sha256 p.preimage

inductive GcraPolicyError where
  | zeroQuota
  | quotaTooLarge (actual maximum : ℕ)
  | zeroBurstCapacity
  | burstCapacityTooLarge (actual maximum : ℕ)
  | zeroPeriod
  | periodNotWholeMilliseconds
  | periodTooLarge (actual maximum : Duration)
  | refillDurationTooLarge (actualMillis maximumMillis : ℕ)
  deriving DecidableEq

def GcraPolicy.new (id : PolicyId) (scope : ScopeId) (quota : ℕ) (period : Duration)
    (burstCapacity : ℕ) : Except GcraPolicyError GcraPolicy :=
  match Capacity.new quota with
  | .error .zero => .error .zeroQuota
  | .error (.tooLarge actual maximum) => .error (.quotaTooLarge actual maximum)
  | .ok quota =>
    match Capacity.new burstCapacity with
    | .error .zero => .error .zeroBurstCapacity
    | .error (.tooLarge actual maximum) => .error (.burstCapacityTooLarge actual maximum)
    | .ok burstCapacity =>
      match QuotaPeriod.new period with
      | .error .zero => .error .zeroPeriod
      | .error .notWholeMilliseconds => .error .periodNotWholeMilliseconds
      | .error (.tooLarge actual maximum) => .error (.periodTooLarge actual maximum)
      | .ok period =>
        let fullRefillMillis := divCeil (burstCapacity.get * period.millis) quota.get
        if h : maxWindowMillis < fullRefillMillis then
          .error (.refillDurationTooLarge fullRefillMillis maxWindowMillis)
        else .ok ⟨id, scope, quota, period, burstCapacity, .enforce, Nat.not_lt.1 h⟩

def GcraPolicy.withQuotaMode (p : GcraPolicy) (quotaMode : QuotaMode) : GcraPolicy :=
  { p with quotaMode }

instance [Sha2] : RateLimitPolicy GcraPolicy where
  id := (·.id)
  scope := (·.scope)
  quota := (·.quota)
  quotaPeriod := (·.period)
  capacity := (·.burstCapacity)
  fingerprint := (·.fingerprint)
  quotaMode := (·.quotaMode)

/-- An outcome-aware attempt policy. `quiet_period ≥ maximum_delay` keeps quiet
expiry from bypassing an active failure delay. -/
structure AttemptPolicy where
  id : PolicyId
  scope : ScopeId
  initialDelay : QuotaPeriod
  maximumDelay : QuotaPeriod
  quietPeriod : QuotaPeriod
  lease : QuotaPeriod
  initial_le : initialDelay.millis ≤ maximumDelay.millis
  maximum_le : maximumDelay.millis ≤ quietPeriod.millis

inductive AttemptPolicyError where
  | maximumBelowInitial
  | quietBelowMaximum
  deriving DecidableEq, Repr

def AttemptPolicy.new (id : PolicyId) (scope : ScopeId)
    (initialDelay maximumDelay quietPeriod lease : QuotaPeriod) :
    Except AttemptPolicyError AttemptPolicy :=
  if h : maximumDelay.millis < initialDelay.millis then .error .maximumBelowInitial
  else if h' : quietPeriod.millis < maximumDelay.millis then .error .quietBelowMaximum
  else .ok ⟨id, scope, initialDelay, maximumDelay, quietPeriod, lease, Nat.not_lt.1 h, Nat.not_lt.1 h'⟩

/-- What `AttemptPolicy::new` feeds to SHA-256. -/
def AttemptPolicy.preimage (p : AttemptPolicy) : List UInt8 :=
  nulTerminated (strBytes "runlimit/attempt-policy/v1") ++ nulTerminated p.id.asBytes ++
    nulTerminated p.scope.asBytes ++
    [p.initialDelay, p.maximumDelay, p.quietPeriod, p.lease].flatMap fun value => toBeBytes value.millis

def AttemptPolicy.fingerprint [Sha2] (p : AttemptPolicy) : PolicyFingerprint :=
  Sha2.sha256 p.preimage

/-- `1_u64.checked_shl(shift)`: `None` from 64 on. -/
def checkedShlOne (shift : ℕ) : Option ℕ := if shift < 64 then some (2 ^ shift) else none

/-- `AttemptPolicy::delay`: the delay after this many consecutive failures. -/
def AttemptPolicy.delay (p : AttemptPolicy) (failures : ℕ) : Duration :=
  if failures = 0 then Duration.zero
  else Duration.fromMillis
    (min (min (p.initialDelay.millis * (checkedShlOne (failures - 1)).getD u64Max) u64Max)
      p.maximumDelay.millis)

/-! ## Subject keys -/

/-- An HMAC computation: its key and the bytes fed so far. -/
structure Mac where
  key : List UInt8
  message : List UInt8

def Mac.update (mac : Mac) (bytes : List UInt8) : Mac := { mac with message := mac.message ++ bytes }

def Mac.finalize [Sha2] (mac : Mac) : Digest := Sha2.hmacSha256 mac.key mac.message

/-- `KEY_DOMAIN`. -/
def keyDomain : List UInt8 := nulTerminated (strBytes "runlimit/subject-key/v1")

/-- A keyed hasher: HMAC state that has absorbed the key domain. -/
structure KeyHasher where
  template : Mac
  absorbed : template.message = keyDomain

inductive KeyHasherError where
  | secretTooShort (actual minimum : ℕ)
  deriving DecidableEq, Repr

/-- `KeyHasher::MINIMUM_SECRET_LENGTH`. -/
def minimumSecretLength : ℕ := 32

def KeyHasher.new (secret : List UInt8) : Except KeyHasherError KeyHasher :=
  if secret.length < minimumSecretLength then
    .error (.secretTooShort secret.length minimumSecretLength)
  else .ok ⟨(Mac.mk secret []).update keyDomain, rfl⟩

/-- The computation `hash_for` finalizes, for a policy with this id and scope. -/
def KeyHasher.macFor (hasher : KeyHasher) (id : PolicyId) (scope : ScopeId) (subject : List UInt8) :
    Mac :=
  ((((hasher.template.update id.asBytes).update [0]).update scope.asBytes).update [0]).update subject

/-- `KeyHasher::hash_for`, without the policy reference it binds. -/
def KeyHasher.hashFor [Sha2] {P : Type} [RateLimitPolicy P] (hasher : KeyHasher) (policy : P)
    (subject : List UInt8) : SubjectKey :=
  (hasher.macFor (RateLimitPolicy.id policy) (RateLimitPolicy.scope policy) subject).finalize

/-- The computation `hash_attempt_for` finalizes. -/
def KeyHasher.macAttemptFor (hasher : KeyHasher) (policy : AttemptPolicy) (subject : List UInt8) :
    Mac :=
  (((((hasher.template.update (nulTerminated (strBytes "attempt/v1"))).update
    policy.id.asBytes).update [0]).update policy.scope.asBytes).update [0]).update subject

/-- `KeyHasher::hash_attempt_for`, without the policy reference it binds. -/
def KeyHasher.hashAttemptFor [Sha2] (hasher : KeyHasher) (policy : AttemptPolicy)
    (subject : List UInt8) : SubjectKey :=
  (hasher.macAttemptFor policy subject).finalize

end Runlimit
