import Runlimit.Proof.PgGcraAgrees

/-!
# Expiry forgets nothing

An entry expires at the first millisecond that reaches its arrival time. From then on the
clock overtakes the arrival time in `gcra::evaluate`, so three ways to treat the entry give one result:
the memory store and the cleanup drop it, the durable limiter filters it, or it is kept.

* `Gcra.evaluate_expired`: an arrival time the clock has reached counts for nothing;
* `PgGcra.perform_consistent`: every command keeps rows that pass the consistency test of the next;
* `gcra_expiry_exact`: the statement about evaluations, runs and the decimal column.
-/

namespace Runlimit

namespace Gcra

variable [Sha2] {c : Check GcraPolicy} {now tat : ℕ}

/-- **An arrival time the clock has reached counts for nothing.** -/
theorem evaluate_expired (h : divCeil tat c.policy.quota.get ≤ now) :
    evaluate c now (some tat) = evaluate c now none := by
  rw [divCeil_le_iff c.policy.quota.pos] at h
  unfold evaluate
  cases hscaled : checkedMul now c.policy.quota.get with
  | none => simp only [hscaled, orOverflow, except_error_bind]
  | some scaled =>
    obtain ⟨-, rfl⟩ := checkedMul_eq_some.1 hscaled
    -- the evaluation starts from the later of the arrival time and the clock
    have hactive : max tat (now * c.policy.quota.get) = max (now * c.policy.quota.get) (now * c.policy.quota.get) := by
      rw [max_eq_right h, max_self]
    simp only [hscaled, orOverflow, except_ok_bind, Option.getD_some, Option.getD_none, hactive]

/-- So it does not matter whether an expired arrival time is filtered out. -/
theorem evaluate_filtered :
    evaluate c now ((some tat).filter fun t => decide (now < divCeil t c.policy.quota.get)) =
      evaluate c now (some tat) := by
  rw [Option.filter_some]
  split
  · rfl
  · rename_i hexpired
    exact (evaluate_expired (Nat.not_lt.1 fun hlt => hexpired (decide_eq_true hlt))).symm

/-- What an allowed evaluation asks to be stored fits `u128`. -/
theorem tatScaled_le {tat : Option ℕ} {pending : PendingAllowance}
    (h : evaluate c now tat = .ok (.allowed pending)) : pending.tatScaled ≤ u128Max := by
  obtain ⟨-, htat, -⟩ := exact_allowed (evaluate_eq_exact h).symm
  rw [htat]
  exact candidate_le h

end Gcra

namespace PgGcra

variable [Sha2] {config : PostgresConfig} {known : Set GcraPolicy} {tables : GcraTables}

/-- A row the known policies agree with passes the test of every check. -/
theorem storedCounter_consistent {c : Check GcraPolicy} (hc : c.policy ∈ known)
    (h : ∀ key row, tables.rows.lookup key = some row → Consistent known key row) :
    storedCounter c (tables.rows.lookup c.counterKey) = .ok (tables.rows.lookup c.counterKey) := by
  unfold storedCounter
  cases hrow : tables.rows.lookup c.counterKey with
  | none => rfl
  | some row =>
    obtain ⟨htat, hexpires⟩ := h _ row hrow
    have heq := hexpires c.policy hc rfl
    simp only
    -- neither `tat_scaled` nor `expires_at_ms` is refused
    rw [if_neg (Nat.not_lt.2 htat), if_neg (fun hne => hne heq)]

/-- **Every command keeps consistent rows.** -/
theorem perform_consistent (hfree : Set.InjOn Sha2.sha256 (GcraPolicy.preimage '' known)) (command : Command)
    (tables : GcraTables) (hknown : ∀ c ∈ command.checks, c.policy ∈ known)
    (h : ∀ key row, tables.rows.lookup key = some row → Consistent known key row) :
    ∀ key row, (perform config command tables).2.rows.lookup key = some row → Consistent known key row := by
  intro key row hrow
  cases perform_keyStep config command tables key with
  | passed _ _ _ hlookup =>
    -- the row is as it was, or has been cleaned up
    rcases hlookup with hsame | ⟨hnone, -⟩
    · rw [hsame] at hrow
      exact h key row hrow
    · rw [hnone] at hrow
      cases hrow
  | charged c hc allowance hkey _ _ _ hevaluated hlookup =>
    rw [hlookup, Option.some.injEq] at hrow
    rw [← hrow, ← hkey]
    exact consistent_rowOf hfree (hknown c hc) hevaluated

/-- From the migration on, every stored row is consistent. -/
theorem reached_consistent (hfree : Set.InjOn Sha2.sha256 (GcraPolicy.preimage '' known))
    {commands : List Command} (hknown : policiesOf commands ⊆ known) :
    ∀ key row, (reached config commands).rows.lookup key = some row → Consistent known key row := by
  have hmigrated : ∀ key row, migrated.rows.lookup key = some row → Consistent known key row := by
    intro key row hrow
    simp [migrated] at hrow
  exact Machine.final_inv (perform_consistent hfree) hmigrated
    fun command hcommand c hc => hknown ⟨command, hcommand, c, hc, rfl⟩

end PgGcra

/-- The column `tat_scaled NUMERIC(39, 0)`, from the text that is cast into it to the text that is read
back: integers of at most 39 digits are stored exactly. -/
def ExactNumeric (column : List Char → Option (List Char)) : Prop :=
  ∀ value, value < 10 ^ 39 → column (decimal value) = some (decimal value)

/-- **Expiry forgets nothing, and stored rows stay self-consistent.** -/
theorem gcra_expiry_exact [Sha2] :
    (∀ (c : Check GcraPolicy) (now : ℕ) (tat : Option ℕ) (pending : Gcra.PendingAllowance),
      Gcra.evaluate c now tat = .ok (.allowed pending) →
      pending.expiresAtMillis = divCeil pending.tatScaled c.policy.quota.get) ∧
    (∀ (c : Check GcraPolicy) (now tat : ℕ), divCeil tat c.policy.quota.get ≤ now →
      Gcra.evaluate c now (some tat) = Gcra.evaluate c now none) ∧
    (∀ (c : Check GcraPolicy) (now tat : ℕ),
      Gcra.evaluate c now ((some tat).filter fun t => decide (now < divCeil t c.policy.quota.get)) =
        Gcra.evaluate c now (some tat)) ∧
    (∀ (config : PostgresConfig) (commands : List PgGcra.Command),
      Set.InjOn Sha2.sha256 (GcraPolicy.preimage '' PgGcra.policiesOf commands) →
      ∀ before command after, commands = before ++ command :: after → ∀ c ∈ command.checks,
        PgGcra.storedCounter c ((PgGcra.reached config before).rows.lookup c.counterKey) =
          .ok ((PgGcra.reached config before).rows.lookup c.counterKey)) ∧
    ∀ column, ExactNumeric column → ∀ (c : Check GcraPolicy) (now : ℕ) (tat : Option ℕ)
      (pending : Gcra.PendingAllowance), Gcra.evaluate c now tat = .ok (.allowed pending) →
      (column (decimal pending.tatScaled)).bind parseU128 = some pending.tatScaled := by
  refine ⟨?_, ?_, ?_, ?_, ?_⟩
  · exact fun c now tat pending h => (Gcra.evaluate_level h).2.2
  · exact fun c now tat h => Gcra.evaluate_expired h
  · exact fun c now tat => Gcra.evaluate_filtered
  · rintro config commands hfree before command after rfl c hc
    have hbefore : PgGcra.policiesOf before ⊆ PgGcra.policiesOf (before ++ command :: after) := by
      rintro p ⟨earlier, hearlier, hp⟩
      exact ⟨earlier, List.mem_append_left _ hearlier, hp⟩
    have hknown : c.policy ∈ PgGcra.policiesOf (before ++ command :: after) :=
      ⟨command, List.mem_append_right _ List.mem_cons_self, c, hc, rfl⟩
    exact PgGcra.storedCounter_consistent hknown (PgGcra.reached_consistent hfree hbefore)
  · intro column hcolumn c now tat pending h
    have hle := Gcra.tatScaled_le h
    -- `u128` has 39 digits
    have hdigits : pending.tatScaled < 10 ^ 39 := by
      unfold u128Max at hle
      omega
    rw [hcolumn _ hdigits, Option.bind_some]
    exact parseU128_decimal hle

/-- A read leaves its arrival time in the column, and the read of a later batch accepts the row. -/
theorem gcra_expiry_exact_read :
    letI := vectorSha2
    Gcra.evaluate (Check.new readPolicy (Digest.replicate 1)) 100 (some 1000) =
      Gcra.evaluate (Check.new readPolicy (Digest.replicate 1)) 100 none ∧
    (∃ row, (PgGcra.reached .new (PgGcra.advancingCommands.take 2)).rows.lookup
        ⟨readPolicy.fingerprint, Digest.replicate 1⟩ = some row ∧
      PgGcra.storedCounter (Check.new readPolicy (Digest.replicate 1)) (some row) = .ok (some row)) ∧
    ∃ pending, Gcra.evaluate (Check.new readPolicy (Digest.replicate 1)) 5 none = .ok (.allowed pending) ∧
      pending.expiresAtMillis = divCeil pending.tatScaled 10 ∧
      (some (decimal pending.tatScaled)).bind parseU128 = some pending.tatScaled := by
  let := vectorSha2
  obtain ⟨hexpires, hexpired, -, hstored, hcolumn⟩ := gcra_expiry_exact
  refine ⟨hexpired _ _ _ (by decide), ?_, ?_⟩
  · have hsub : PgGcra.policiesOf PgGcra.advancingCommands ⊆ {readPolicy, writePolicy} := PgGcra.advancing_policies
    have haccepted := hstored .new PgGcra.advancingCommands (vector_gcra_injOn.mono (Set.image_mono hsub))
      (PgGcra.advancingCommands.take 2) _ [] rfl _ List.mem_cons_self
    refine ⟨⟨18050, 1805⟩, by decide +kernel, ?_⟩
    have hrow : (PgGcra.reached .new (PgGcra.advancingCommands.take 2)).rows.lookup
        ⟨readPolicy.fingerprint, Digest.replicate 1⟩ = some ⟨18050, 1805⟩ := by decide +kernel
    have hkey : (Check.new readPolicy (Digest.replicate 1)).counterKey =
        ⟨readPolicy.fingerprint, Digest.replicate 1⟩ := rfl
    rw [hkey, hrow] at haccepted
    exact haccepted
  · obtain ⟨pending, hpending⟩ : ∃ pending,
        Gcra.evaluate (Check.new readPolicy (Digest.replicate 1)) 5 none = .ok (.allowed pending) :=
      ⟨⟨1050, 105, ⟨readPolicy.burstCapacity, 19, ⟨Duration.fromMillis 100⟩, by decide⟩⟩, by decide +kernel⟩
    exact ⟨pending, hpending, hexpires _ _ _ _ hpending, hcolumn some (fun _ _ => rfl) _ _ _ _ hpending⟩

end Runlimit
