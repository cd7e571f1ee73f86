import Runlimit.Bucket.Level
import Runlimit.Spec.History

/-!
# The token bucket

The bucket a GCRA policy stands for, with tokens scaled by the period: it starts full with
`burst * period` tokens, gains `quota` tokens each millisecond up to that, and an admission pays
`cost * period`. `Follows` compares the events of a run with it, one check of the key after the
other; a storage denial is no answer of the bucket and leaves it as it is.
-/

namespace Runlimit

variable [Sha2]

/-- `ReferenceBucket`: the scaled tokens when they were last counted. -/
structure TokenBucket where
  tokensScaled : ℕ
  lastMillis : ℕ

namespace TokenBucket

/-- The tokens of a full bucket. -/
def maximum (policy : GcraPolicy) : ℕ := policy.burstCapacity.get * policy.period.millis

def new (policy : GcraPolicy) : TokenBucket := ⟨maximum policy, 0⟩

/-- The tokens at a later time. -/
def tokensAt (policy : GcraPolicy) (bucket : TokenBucket) (now : ℕ) : ℕ :=
  Bucket.refill policy.quota.get (maximum policy) bucket.tokensScaled (now - bucket.lastMillis)

omit [Sha2] in
theorem available_le (policy : GcraPolicy) (bucket : TokenBucket) (now requested : ℕ) :
    (bucket.tokensAt policy now - requested) / policy.period.millis ≤ policy.burstCapacity.get := by
  have hle : bucket.tokensAt policy now - requested ≤ maximum policy :=
    (Nat.sub_le _ _).trans (Bucket.refill_le _ _)
  exact (Nat.div_le_div_right hle).trans (Nat.mul_div_cancel _ policy.period.pos).le

/-- The answer of the bucket to a check, and the bucket after it. -/
def check (c : Check GcraPolicy) (now : ℕ) (bucket : TokenBucket) : Decision × TokenBucket :=
  let tokens := bucket.tokensAt c.policy now
  let requested := c.cost * c.policy.period.millis
  if tokens < requested then
    (.quotaExceeded c.quotaMode (QuotaDenial.new c.policy.burstCapacity
      (Duration.fromMillis (divCeil (requested - tokens) c.policy.quota.get))), ⟨tokens, now⟩)
  else
    (.allowed ⟨c.policy.burstCapacity, (tokens - requested) / c.policy.period.millis,
      ⟨Duration.fromMillis (divCeil (maximum c.policy - (tokens - requested)) c.policy.quota.get)⟩,
      available_le c.policy bucket now requested⟩, ⟨tokens - requested, now⟩)

end TokenBucket

/-- The answer was a storage denial. -/
def Response.StorageDenied (response : Response) : Prop :=
  ∃ after, response = .check (.returned (.ok (.denied (.storageCapacity after))))

/-- The single checks of a key are answered by the bucket, storage denials apart. -/
inductive Follows (key : CounterKey) : TokenBucket → List (Event GcraPolicy) → Prop where
  | nil (bucket : TokenBucket) : Follows key bucket []
  /-- An operation on other keys. -/
  | other {bucket : TokenBucket} {event : Event GcraPolicy} {rest : List (Event GcraPolicy)}
      (hother : ∀ c ∈ event.request.checks, c.counterKey ≠ key) (hrest : Follows key bucket rest) :
      Follows key bucket (event :: rest)
  /-- A storage denial. -/
  | storageDenied {bucket : TokenBucket} {event : Event GcraPolicy} {rest : List (Event GcraPolicy)}
      (c : Check GcraPolicy) (hrequest : event.request = .check c) (hkey : c.counterKey = key)
      (hdenied : event.response.StorageDenied) (hrest : Follows key bucket rest) :
      Follows key bucket (event :: rest)
  /-- Any other answer is the bucket's. -/
  | answered {bucket : TokenBucket} {event : Event GcraPolicy} {rest : List (Event GcraPolicy)}
      (c : Check GcraPolicy) (hrequest : event.request = .check c) (hkey : c.counterKey = key)
      (hanswer : event.response = .check (.returned (.ok (bucket.check c event.nowMillis).1)))
      (hrest : Follows key (bucket.check c event.nowMillis).2 rest) :
      Follows key bucket (event :: rest)

end Runlimit
