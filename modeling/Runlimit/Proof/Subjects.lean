import Runlimit.Proof.Encoding

/-!
# Quota and attempt subject keys

`hash_for` and `hash_attempt_for` share the key domain; the attempt derivation adds
the tag `attempt/v1` and a NUL before its identifiers. The tag is itself a valid policy
identifier, and a subject is free-form, so the two layouts meet exactly when the quota
policy is named like the tag and its scope and subject spell the attempt policy's
identifiers and subject (`AliasesAttempt`).
-/

namespace Runlimit

theorem KeyHasher.macFor_message (hasher : KeyHasher) (id : PolicyId) (scope : ScopeId)
    (subject : List UInt8) :
    (hasher.macFor id scope subject).message =
      keyDomain ++ (nulTerminated id.asBytes ++ (nulTerminated scope.asBytes ++ subject)) := by
  simp [KeyHasher.macFor, Mac.update, hasher.absorbed, nulTerminated]

theorem KeyHasher.macAttemptFor_message (hasher : KeyHasher) (policy : AttemptPolicy)
    (subject : List UInt8) :
    (hasher.macAttemptFor policy subject).message =
      keyDomain ++ (nulTerminated (strBytes "attempt/v1") ++ (nulTerminated policy.id.asBytes ++
        (nulTerminated policy.scope.asBytes ++ subject))) := by
  simp [KeyHasher.macAttemptFor, Mac.update, hasher.absorbed, nulTerminated]

/-- The quota derivation for `(id, scope, s)` spells the attempt derivation for
`(policy, t)`: the quota policy is named like the attempt tag, its scope like the
attempt policy, and its subject continues with the attempt scope, a NUL and `t`. -/
def AliasesAttempt (id : PolicyId) (scope : ScopeId) (s : List UInt8) (policy : AttemptPolicy)
    (t : List UInt8) : Prop :=
  id.asStr = "attempt/v1" ∧ scope = policy.id ∧ s = nulTerminated policy.scope.asBytes ++ t

theorem macFor_message_eq_iff (hasher : KeyHasher) (id : PolicyId) (scope : ScopeId)
    (s : List UInt8) (policy : AttemptPolicy) (t : List UInt8) :
    (hasher.macFor id scope s).message = (hasher.macAttemptFor policy t).message ↔
      AliasesAttempt id scope s policy t := by
  have htag : validate "attempt/v1" = .ok () := by decide
  have hbytes : strBytes "attempt/v1" = (Identifier.mk "attempt/v1" htag).asBytes := rfl
  rw [hasher.macFor_message, hasher.macAttemptFor_message, List.append_cancel_left_eq, hbytes,
    nulTerminated_append_inj id.zero_notMem (Identifier.zero_notMem _),
    nulTerminated_append_inj scope.zero_notMem policy.id.zero_notMem]
  constructor
  · rintro ⟨h1, h2, h3⟩
    exact ⟨by rw [Identifier.asBytes_inj h1], Identifier.asBytes_inj h2, h3⟩
  · rintro ⟨h1, rfl, h3⟩
    have : id = ⟨"attempt/v1", htag⟩ := by cases id; simp_all
    exact ⟨by rw [this], rfl, h3⟩

/-- **When the two derivations are separated.** The byte strings that `hash_for` and
`hash_attempt_for` feed to HMAC differ exactly when the inputs do not alias; and where
HMAC does not collide on these two byte strings, so do the derived keys. -/
theorem quota_attempt_separated_iff [Sha2] {P : Type} [RateLimitPolicy P] (hasher : KeyHasher)
    (quota : P) (attempt : AttemptPolicy) (s t : List UInt8)
    (hmac : (hasher.macFor (RateLimitPolicy.id quota) (RateLimitPolicy.scope quota) s).finalize =
        (hasher.macAttemptFor attempt t).finalize →
      (hasher.macFor (RateLimitPolicy.id quota) (RateLimitPolicy.scope quota) s).message =
        (hasher.macAttemptFor attempt t).message) :
    ((hasher.macFor (RateLimitPolicy.id quota) (RateLimitPolicy.scope quota) s).message ≠
        (hasher.macAttemptFor attempt t).message ↔
      ¬ AliasesAttempt (RateLimitPolicy.id quota) (RateLimitPolicy.scope quota) s attempt t) ∧
    (hasher.hashFor quota s ≠ hasher.hashAttemptFor attempt t ↔
      ¬ AliasesAttempt (RateLimitPolicy.id quota) (RateLimitPolicy.scope quota) s attempt t) := by
  refine ⟨not_congr (macFor_message_eq_iff hasher _ _ s attempt t), not_congr ?_⟩
  rw [← macFor_message_eq_iff hasher]
  constructor
  · exact hmac
  · intro h
    have hkey : (hasher.macFor (RateLimitPolicy.id quota) (RateLimitPolicy.scope quota) s).key =
        (hasher.macAttemptFor attempt t).key := rfl
    unfold KeyHasher.hashFor KeyHasher.hashAttemptFor Mac.finalize
    rw [hkey, h]

def vectorHasher : KeyHasher := ⟨(Mac.mk (List.replicate 32 0x42) []).update keyDomain, rfl⟩

/-- On the pinned test subject, for identical identifiers, the two keys differ. -/
theorem quota_attempt_separated_vectors :
    letI := vectorSha2
    vectorHasher.hashFor loginPolicy (strBytes "user@example.test") ≠
      vectorHasher.hashAttemptFor loginAttempts (strBytes "user@example.test") :=
  letI := vectorSha2
  ((quota_attempt_separated_iff vectorHasher loginPolicy loginAttempts (strBytes "user@example.test")
    (strBytes "user@example.test") (fun h => absurd h (by decide))).2).2 fun h => absurd h.1 (by decide)

/-- **The two domains are not disjoint.** A quota policy named `attempt/v1` with scope
`auth` and subject `identifier`, NUL, `user` feeds HMAC the same bytes as the attempt
policy `auth`/`identifier` with subject `user`. -/
theorem quota_attempt_inputs_collide :
    ¬ ∀ (hasher : KeyHasher) (quota : FixedWindowPolicy) (attempt : AttemptPolicy) (s t : List UInt8),
      (hasher.macFor quota.id quota.scope s).message ≠ (hasher.macAttemptFor attempt t).message := by
  intro h
  exact h vectorHasher
    { loginPolicy with id := ⟨"attempt/v1", by decide⟩, scope := ⟨"auth", by decide⟩ }
    { loginAttempts with id := ⟨"auth", by decide⟩, scope := ⟨"identifier", by decide⟩ }
    (strBytes "identifier\x00user") (strBytes "user") (by decide)

end Runlimit
