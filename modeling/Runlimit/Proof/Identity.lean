import Runlimit.Spec.Decision
import Runlimit.Proof.Subjects

/-!
# Storage identity

Which checks share a counter. The fingerprint layouts of the three kinds of policy start with
different domains, each of them a NUL-terminated field, so no two kinds share a layout
(`domain_append_inj`); within a kind the fields are read back one by one. With hash functions that
do not collide on the inputs at hand, a counter key is then as good as the algorithm, the
identifiers, the numbers and the subject bytes it was built from.
-/

namespace Runlimit

/-- A policy of either quota algorithm. -/
inductive QuotaPolicy where
  | fixedWindow (policy : FixedWindowPolicy)
  | gcra (policy : GcraPolicy)

namespace QuotaPolicy

/-- What its fingerprint hashes. -/
def preimage : QuotaPolicy → List UInt8
  | .fixedWindow policy => policy.preimage
  | .gcra policy => policy.preimage

def id : QuotaPolicy → PolicyId
  | .fixedWindow policy => policy.id
  | .gcra policy => policy.id

def scope : QuotaPolicy → ScopeId
  | .fixedWindow policy => policy.scope
  | .gcra policy => policy.scope

def withQuotaMode (policy : QuotaPolicy) (mode : QuotaMode) : QuotaPolicy :=
  match policy with
  | .fixedWindow policy => .fixedWindow (policy.withQuotaMode mode)
  | .gcra policy => .gcra (policy.withQuotaMode mode)

def fingerprint [Sha2] : QuotaPolicy → PolicyFingerprint
  | .fixedWindow policy => policy.fingerprint
  | .gcra policy => policy.fingerprint

/-- The counter key of the check built from `hash_for`. -/
def counterKey [Sha2] (hasher : KeyHasher) (subject : List UInt8) : QuotaPolicy → CounterKey
  | .fixedWindow policy => (Check.new policy (hasher.hashFor policy subject)).counterKey
  | .gcra policy => (Check.new policy (hasher.hashFor policy subject)).counterKey

/-- The same algorithm with the same identifiers and numbers, in whatever mode. -/
def SameQuota : QuotaPolicy → QuotaPolicy → Prop
  | .fixedWindow p, .fixedWindow q =>
    p.id = q.id ∧ p.scope = q.scope ∧ p.limit = q.limit ∧ p.window = q.window
  | .gcra p, .gcra q =>
    p.id = q.id ∧ p.scope = q.scope ∧ p.quota = q.quota ∧ p.period = q.period ∧
      p.burstCapacity = q.burstCapacity
  | _, _ => False

theorem SameQuota.id_eq {p q : QuotaPolicy} (h : p.SameQuota q) : p.id = q.id ∧ p.scope = q.scope := by
  cases p with
  | fixedWindow p =>
    cases q with
    | fixedWindow q => exact ⟨h.1, h.2.1⟩
    | gcra q => exact h.elim
  | gcra p =>
    cases q with
    | fixedWindow q => exact h.elim
    | gcra q => exact ⟨h.1, h.2.1⟩

end QuotaPolicy

/-- Layouts under different domains differ. -/
theorem domain_append_inj {a b : String} {x y : List UInt8} (ha : (0 : UInt8) ∉ strBytes a)
    (hb : (0 : UInt8) ∉ strBytes b) (h : nulTerminated (strBytes a) ++ x = nulTerminated (strBytes b) ++ y) :
    strBytes a = strBytes b :=
  ((nulTerminated_append_inj ha hb).1 h).1

/-- The two algorithms hash under different domains. -/
theorem fixedWindow_preimage_ne_gcra (p : FixedWindowPolicy) (q : GcraPolicy) : p.preimage ≠ q.preimage := by
  intro h
  unfold FixedWindowPolicy.preimage GcraPolicy.preimage at h
  simp only [List.append_assoc] at h
  exact absurd (domain_append_inj (by decide) (by decide) h) (by decide)

/-- So do attempts. -/
theorem attempt_preimage_ne_quota (p : AttemptPolicy) (q : QuotaPolicy) : p.preimage ≠ q.preimage := by
  intro h
  cases q with
  | fixedWindow q =>
    unfold QuotaPolicy.preimage AttemptPolicy.preimage FixedWindowPolicy.preimage at h
    simp only [List.append_assoc] at h
    exact absurd (domain_append_inj (by decide) (by decide) h) (by decide)
  | gcra q =>
    unfold QuotaPolicy.preimage AttemptPolicy.preimage GcraPolicy.preimage at h
    simp only [List.append_assoc] at h
    exact absurd (domain_append_inj (by decide) (by decide) h) (by decide)

/-- Two quota policies hash the same bytes exactly when they are the same quota. -/
theorem QuotaPolicy.preimage_eq_iff (p q : QuotaPolicy) : p.preimage = q.preimage ↔ p.SameQuota q := by
  cases p with
  | fixedWindow p =>
    cases q with
    | fixedWindow q =>
      refine ⟨FixedWindowPolicy.preimage_inj, ?_⟩
      rintro ⟨hid, hscope, hlimit, hwindow⟩
      change p.preimage = q.preimage
      unfold FixedWindowPolicy.preimage
      rw [hid, hscope, hlimit, hwindow]
    | gcra q => exact ⟨fun h => fixedWindow_preimage_ne_gcra p q h, fun h => h.elim⟩
  | gcra p =>
    cases q with
    | fixedWindow q => exact ⟨fun h => fixedWindow_preimage_ne_gcra q p h.symm, fun h => h.elim⟩
    | gcra q =>
      refine ⟨GcraPolicy.preimage_inj, ?_⟩
      rintro ⟨hid, hscope, hquota, hperiod, hburst⟩
      change p.preimage = q.preimage
      unfold GcraPolicy.preimage
      rw [hid, hscope, hquota, hperiod, hburst]

/-- Under one hasher the identifiers and the subject are read back from what HMAC is fed. -/
theorem macFor_message_inj (hasher : KeyHasher) (id id' : PolicyId) (scope scope' : ScopeId)
    (s t : List UInt8) :
    (hasher.macFor id scope s).message = (hasher.macFor id' scope' t).message ↔
      id = id' ∧ scope = scope' ∧ s = t := by
  rw [hasher.macFor_message, hasher.macFor_message, List.append_cancel_left_eq,
    nulTerminated_append_inj id.zero_notMem id'.zero_notMem,
    nulTerminated_append_inj scope.zero_notMem scope'.zero_notMem]
  -- no identifier has a NUL byte, so each field ends where it is terminated
  constructor
  · rintro ⟨hid, hscope, hsubject⟩
    exact ⟨Identifier.asBytes_inj hid, Identifier.asBytes_inj hscope, hsubject⟩
  · rintro ⟨rfl, rfl, rfl⟩
    exact ⟨rfl, rfl, rfl⟩

section Hashed

variable [Sha2]

theorem QuotaPolicy.fingerprint_eq (p : QuotaPolicy) : p.fingerprint = Sha2.sha256 p.preimage := by
  cases p with
  | fixedWindow p => rfl
  | gcra p => rfl

/-- A counter key is the two hashes. -/
theorem QuotaPolicy.counterKey_eq (p : QuotaPolicy) (hasher : KeyHasher) (s : List UInt8) :
    p.counterKey hasher s = ⟨Sha2.sha256 p.preimage, (hasher.macFor p.id p.scope s).finalize⟩ := by
  cases p with
  | fixedWindow p => rfl
  | gcra p => rfl

/-- **Storage identity is exact.** For every hasher, any two quota policies and subjects, and any
two attempt policies, with hash functions that do not collide on what is hashed for them: two
checks have one counter key exactly when they are of the same quota and subject, in whatever
modes; two attempt policies have one fingerprint exactly when all their fields agree; and no
attempt policy has the fingerprint of a quota policy. -/
theorem storage_identity_exact (hasher : KeyHasher) (p q : QuotaPolicy) (s t : List UInt8)
    (a b : AttemptPolicy)
    (hsha : Set.InjOn Sha2.sha256 {p.preimage, q.preimage, a.preimage, b.preimage})
    (hmac : Set.InjOn (Sha2.hmacSha256 hasher.template.key)
      {(hasher.macFor p.id p.scope s).message, (hasher.macFor q.id q.scope t).message}) :
    (p.counterKey hasher s = q.counterKey hasher t ↔ p.SameQuota q ∧ s = t) ∧
      (∀ mode, (p.withQuotaMode mode).counterKey hasher s = p.counterKey hasher s) ∧
      (a.fingerprint = b.fingerprint ↔ a.id = b.id ∧ a.scope = b.scope ∧ a.initialDelay = b.initialDelay ∧
        a.maximumDelay = b.maximumDelay ∧ a.quietPeriod = b.quietPeriod ∧ a.lease = b.lease) ∧
      a.fingerprint ≠ p.fingerprint := by
  refine ⟨?_, ?_, ?_, ?_⟩
  · rw [p.counterKey_eq, q.counterKey_eq, CounterKey.mk.injEq]
    have hfingerprint : Sha2.sha256 p.preimage = Sha2.sha256 q.preimage ↔ p.SameQuota q := by
      rw [← p.preimage_eq_iff q]
      exact hsha.eq_iff (by simp) (by simp)
    -- the HMAC of a subject reads back the identifiers as well
    have hsubject : (hasher.macFor p.id p.scope s).finalize = (hasher.macFor q.id q.scope t).finalize ↔
        p.id = q.id ∧ p.scope = q.scope ∧ s = t := by
      rw [← macFor_message_inj hasher]
      exact hmac.eq_iff (by simp) (by simp)
    rw [hfingerprint, hsubject]
    constructor
    · rintro ⟨hsame, -, -, hst⟩
      exact ⟨hsame, hst⟩
    · rintro ⟨hsame, hst⟩
      exact ⟨hsame, hsame.id_eq.1, hsame.id_eq.2, hst⟩
  · intro mode
    cases p with
    | fixedWindow p => rfl
    | gcra p => rfl
  · have hfingerprint : a.fingerprint = b.fingerprint ↔ a.preimage = b.preimage :=
      hsha.eq_iff (by simp) (by simp)
    rw [hfingerprint]
    constructor
    · intro h
      rw [AttemptPolicy.preimage_inj h]
      exact ⟨rfl, rfl, rfl, rfl, rfl, rfl⟩
    · rintro ⟨hid, hscope, hinitial, hmaximum, hquiet, hlease⟩
      unfold AttemptPolicy.preimage
      rw [hid, hscope, hinitial, hmaximum, hquiet, hlease]
  · rw [p.fingerprint_eq]
    intro h
    exact attempt_preimage_ne_quota a p (hsha (by simp) (by simp) h)

end Hashed

/-- The pinned policy and subject, once enforced and once in the shadow: one counter. -/
theorem storage_identity_exact_vectors :
    letI := vectorSha2
    (QuotaPolicy.fixedWindow loginPolicy).counterKey vectorHasher (strBytes "user@example.test") =
        (QuotaPolicy.fixedWindow { loginPolicy with quotaMode := .shadow }).counterKey vectorHasher
          (strBytes "user@example.test") ∧
      loginAttempts.fingerprint ≠ (QuotaPolicy.fixedWindow loginPolicy).fingerprint := by
  let := vectorSha2
  have hne : vectorSha256 loginPolicy.preimage ≠ vectorSha256 loginAttempts.preimage := by decide
  have hexact := storage_identity_exact vectorHasher (.fixedWindow loginPolicy)
    (.fixedWindow { loginPolicy with quotaMode := .shadow }) (strBytes "user@example.test")
    (strBytes "user@example.test") loginAttempts loginAttempts ?_ ?_
  · exact ⟨hexact.1.2 ⟨⟨rfl, rfl, rfl, rfl⟩, rfl⟩, hexact.2.2.2⟩
  · change Set.InjOn vectorSha256 {loginPolicy.preimage, loginPolicy.preimage, loginAttempts.preimage,
      loginAttempts.preimage}
    rintro x (rfl | rfl | rfl | rfl) y (rfl | rfl | rfl | rfl) h
    all_goals first | rfl | exact absurd h hne | exact absurd h.symm hne
  · change Set.InjOn _ {(vectorHasher.macFor loginPolicy.id loginPolicy.scope _).message,
      (vectorHasher.macFor loginPolicy.id loginPolicy.scope _).message}
    rw [Set.pair_eq_singleton]
    exact Set.injOn_singleton _ _

end Runlimit
