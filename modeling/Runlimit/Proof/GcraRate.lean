import Runlimit.Bucket.Level
import Runlimit.Proof.KeySteps
import Runlimit.Proof.Unobservable

/-!
# The GCRA rate bound

The level of a key is the arrival time its bucket stands for: the stored one, or the time its
shard has observed, whichever is later. Every call raises it by the scaled cost it charges, and a
call that touches the shard leaves it within the burst span of its time (`keyStep_level`). So
what a run admits between two touches is bounded by the burst and what is gained in between
(`gcra_rate_bound`).
-/

namespace Runlimit

open Bucket

namespace GcraPolicy

/-- The level of a key in a shard. -/
def levelOf (policy : GcraPolicy) (key : CounterKey) (s : RefShard GcraEntry) : ℕ :=
  level policy.quota.get s.observedMillis ((s.entries.lookup key).map (·.value.tatScaled))

/-- The entry of a key lives exactly until its arrival time, which is within the burst span of
the observed time. -/
def Sound (policy : GcraPolicy) (key : CounterKey) (s : RefShard GcraEntry) : Prop :=
  ∀ entry, s.entries.lookup key = some entry →
    entry.expiresAtMillis = divCeil entry.value.tatScaled policy.quota.get ∧
    entry.value.tatScaled ≤ s.observedMillis * policy.quota.get + Gcra.burstSpan policy

variable {policy : GcraPolicy} {key : CounterKey} {s s' : RefShard GcraEntry}

theorem Sound.new : Sound policy key RefShard.new := by
  intro entry h
  simp [RefShard.new] at h

/-- Only the quota of a policy matters. -/
theorem sound_congr {policy' : GcraPolicy} (h : policy'.SameQuota policy) :
    Sound policy' key s ↔ Sound policy key s := by
  obtain ⟨hq, hp, hb⟩ := h
  unfold Sound Gcra.burstSpan
  rw [hq, hp, hb]

/-- A sound level is within the burst span of the observed time. -/
theorem Sound.level_le (h : Sound policy key s) :
    levelOf policy key s ≤ s.observedMillis * policy.quota.get + Gcra.burstSpan policy := by
  unfold levelOf level
  cases hentry : s.entries.lookup key with
  | none => simp
  | some entry =>
    have := (h entry hentry).2
    simp only [Option.map_some, Option.getD_some]
    omega

/-- Deleting what has expired forgets only arrival times that were reached. -/
theorem Sound.level_advance (h : Sound policy key s) {now : ℕ} (hobs : s.observedMillis ≤ now) :
    levelOf policy key (s.advance now) = max (levelOf policy key s) (now * policy.quota.get) := by
  have hlevel := @Bucket.level_advance policy.quota.get s.observedMillis
    ((s.entries.lookup key).map (·.value.tatScaled)) now hobs
  unfold levelOf
  rw [← hlevel]
  change level policy.quota.get now _ = _
  cases hentry : (s.advance now).entries.lookup key with
  | some entry => rw [(RefShard.lookup_advance.1 hentry).1]
  | none =>
    refine level_forget ?_
    intro tat htat
    obtain ⟨entry, hlookup, rfl⟩ := Option.map_eq_some_iff.1 htat
    -- the entry was there and is gone, so it has expired, so its arrival time was reached
    have hexpired : entry.expiresAtMillis ≤ now := by
      by_contra hlt
      rw [RefShard.lookup_advance.2 ⟨hlookup, Nat.not_le.1 hlt⟩] at hentry
      cases hentry
    rw [(h entry hlookup).1, divCeil_le_iff policy.quota.pos] at hexpired
    exact hexpired

theorem Sound.advance (h : Sound policy key s) {now : ℕ} (hobs : s.observedMillis ≤ now) :
    Sound policy key (s.advance now) := by
  intro entry hentry
  obtain ⟨hexpires, htat⟩ := h entry (RefShard.lookup_advance.1 hentry).1
  refine ⟨hexpires, ?_⟩
  have hscaled := Nat.mul_le_mul_right policy.quota.get hobs
  change entry.value.tatScaled ≤ now * policy.quota.get + Gcra.burstSpan policy
  omega

end GcraPolicy

/-! ## What a call does to the level -/

section Step

variable [Sha2] {config : MemoryStoreConfig} {policy : GcraPolicy} {key : CounterKey} {event : Event GcraPolicy}
  {s s' : RefShard GcraEntry}

/-- An allowed evaluation moves the level on by the scaled cost, to within the burst span. -/
theorem Gcra.evaluate_level {c : Check GcraPolicy} {now : ℕ} {tat : Option ℕ} {pending : Gcra.PendingAllowance}
    (h : Gcra.evaluate c now tat = .ok (.allowed pending)) :
    pending.tatScaled = level c.policy.quota.get now tat + c.cost * c.policy.period.millis ∧
      pending.tatScaled ≤ now * c.policy.quota.get + Gcra.burstSpan c.policy ∧
      pending.expiresAtMillis = divCeil pending.tatScaled c.policy.quota.get := by
  obtain ⟨hle, htat, hexpires⟩ := Gcra.exact_allowed (Gcra.evaluate_eq_exact h).symm
  have hlt := Gcra.scaledNow_lt_candidate c now tat
  rw [htat, hexpires]
  refine ⟨?_, hle, ?_⟩
  · rw [level_eq_getD]
    rfl
  · unfold Gcra.replenishMillis
    rw [← divCeil_add_mul c.policy.quota.pos]
    have hsum : now * c.policy.quota.get + (Gcra.candidate c now tat - Gcra.scaledNow c now) = Gcra.candidate c now tat :=
      Nat.add_sub_cancel' hlt.le
    rw [hsum]

/-- An allowed check moves the level on by its scaled cost, to within the burst span. -/
theorem gcra_allowed {c : Check GcraPolicy} {now : ℕ} {live : Option (StoredEntry GcraEntry)}
    {entry : StoredEntry GcraEntry} {allowance : Allowance}
    (h : gcra.evaluate c now live = .ok (.allowed entry allowance)) :
    entry.value.tatScaled = level c.policy.quota.get now (live.map (·.value.tatScaled)) +
        c.cost * c.policy.period.millis ∧
      entry.value.tatScaled ≤ now * c.policy.quota.get + Gcra.burstSpan c.policy ∧
      entry.expiresAtMillis = divCeil entry.value.tatScaled c.policy.quota.get := by
  change (Gcra.evaluate c now (live.map (·.value.tatScaled))).map gcraVerdict = _ at h
  cases hev : Gcra.evaluate c now (live.map (·.value.tatScaled)) with
  | error e =>
    rw [hev] at h
    cases h
  | ok v =>
    rw [hev, except_map_ok, Except.ok.injEq] at h
    cases v with
    | denied d => cases h
    | allowed pending =>
      cases h
      exact Gcra.evaluate_level hev

/-- **One call, one level.** A call that touches the shard moves the level to its time and then
on by what it charges; any other call leaves it alone. -/
theorem keyStep_level (h : KeyStep config gcra key event s s')
    (hquota : ∀ c ∈ event.request.checks, c.counterKey = key → c.policy.SameQuota policy)
    (hs : policy.Sound key s) :
    policy.Sound key s' ∧
      ((¬ event.Touches config (config.shardIndex key) ∧ event.cost key = 0 ∧ s' = s) ∨
        (event.Touches config (config.shardIndex key) ∧ s.observedMillis ≤ event.nowMillis ∧
          s'.observedMillis = event.nowMillis ∧
          policy.levelOf key s' = max (policy.levelOf key s) (event.nowMillis * policy.quota.get) +
            event.cost key * policy.period.millis)) := by
  have hcost : ∀ costs, event.costs key = costs → event.cost key = costs.sum := by
    intro costs hcosts
    unfold Event.cost
    rw [hcosts]
  cases h with
  | idle hidle hcosts hsame => exact ⟨hsame ▸ hs, Or.inl ⟨hidle, hcost [] hcosts, hsame⟩⟩
  | passed htouch hcosts hobs hobs' hentry =>
    have hadvance := hs.advance hobs
    have hlevel := hs.level_advance hobs
    refine ⟨?_, Or.inr ⟨htouch, hobs, hobs', ?_⟩⟩
    · intro entry hlookup
      rw [hentry] at hlookup
      rw [hobs']
      exact hadvance entry hlookup
    · rw [hcost [] hcosts, List.sum_nil, Nat.zero_mul, Nat.add_zero, ← hlevel]
      unfold GcraPolicy.levelOf
      rw [hobs', hentry]
      rfl
  | charged htouch c hc hkey hcosts hobs hobs' entry allowance hevaluate hentry =>
    obtain ⟨htat, hle, hexpires⟩ := gcra_allowed hevaluate
    obtain ⟨hq, hp, hb⟩ := hquota c hc hkey
    unfold Gcra.burstSpan at hle
    rw [hq] at htat hle hexpires
    rw [hp] at htat hle
    rw [hb] at hle
    have hlevel := hs.level_advance hobs
    unfold GcraPolicy.levelOf at hlevel
    change level policy.quota.get event.nowMillis _ = _ at hlevel
    rw [hlevel] at htat
    refine ⟨?_, Or.inr ⟨htouch, hobs, hobs', ?_⟩⟩
    · intro e he
      rw [hentry, Option.some.injEq] at he
      subst he
      rw [hobs']
      exact ⟨hexpires, hle⟩
    · rw [hcost [c.cost] hcosts, List.sum_singleton]
      unfold GcraPolicy.levelOf
      rw [hobs', hentry, Option.map_some, level_some]
      · rw [htat]
      · omega

end Step

/-! ## Runs -/

/-- **The rate bound.** Between two operations of a run of the GCRA store that touch the shard of
a key, the allowed checks of the key cost at most the burst capacity and what the quota gains
over the time between them. -/
theorem gcra_rate_bound [Sha2] (config : MemoryStoreConfig) (calls : List (Call GcraPolicy))
    (key : CounterKey) (policy : GcraPolicy) (hquota : QuotaOf calls key policy)
    (m n : ℕ) (hmn : m ≤ n) (first last : Event GcraPolicy)
    (hfirst : (GcraStore.run config calls)[m]? = some first)
    (hlast : (GcraStore.run config calls)[n]? = some last)
    (htouchFirst : first.Touches config (config.shardIndex key))
    (htouchLast : last.Touches config (config.shardIndex key)) :
    first.nowMillis ≤ last.nowMillis ∧
      ((((GcraStore.run config calls).take (n + 1)).drop m).map (Event.cost · key)).sum *
          policy.period.millis ≤
        policy.burstCapacity.get * policy.period.millis +
          (last.nowMillis - first.nowMillis) * policy.quota.get := by
  rw [(GcraStore.run_eq config calls).1] at hfirst hlast ⊢
  have htime := RefStore.touch_times_le gcra calls key hmn hfirst hlast htouchFirst htouchLast
  refine ⟨htime, ?_⟩
  have hnew : policy.Sound key ((RefStore.new config : RefStore config GcraEntry) (config.shardIndex key)) :=
    GcraPolicy.Sound.new
  have hbound := Machine.charged_between
    (fun store : RefStore config GcraEntry => policy.Sound key (store (config.shardIndex key)))
    (fun store : RefStore config GcraEntry => policy.levelOf key (store (config.shardIndex key)))
    (fun event : Event GcraPolicy => event.cost key * policy.period.millis)
    (fun event => event.nowMillis * policy.quota.get)
    (fun event => event.nowMillis * policy.quota.get + Gcra.burstSpan policy)
    (·.Touches config (config.shardIndex key)) ?_ ?_ ?_ hnew hquota hmn hfirst hlast htouchFirst
    htouchLast
  · rw [List.sum_map_mul_right] at hbound
    have hgain : (last.nowMillis - first.nowMillis) * policy.quota.get + first.nowMillis * policy.quota.get =
        last.nowMillis * policy.quota.get := by
      rw [← Nat.add_mul, Nat.sub_add_cancel htime]
    change _ ≤ Gcra.burstSpan policy + _
    change _ + List.sum _ * _ ≤ _ at hbound
    unfold RefStore.run
    omega
  · intro call store hcall hs
    obtain ⟨hs', ⟨-, hcost, hsame⟩ | ⟨-, -, -, hlevel⟩⟩ :=
      keyStep_level (RefStore.serve_keyStep gcra call store key) hcall hs
    · exact ⟨by rw [hcost, hsame]; omega, hs'⟩
    · exact ⟨by omega, hs'⟩
  · intro call store hcall hs hmark
    obtain ⟨-, ⟨hidle, -⟩ | ⟨-, -, -, hlevel⟩⟩ :=
      keyStep_level (RefStore.serve_keyStep gcra call store key) hcall hs
    · exact absurd hmark hidle
    · omega
  · intro call store hcall hs hmark
    obtain ⟨hs', ⟨hidle, -⟩ | ⟨-, -, hobs, -⟩⟩ :=
      keyStep_level (RefStore.serve_keyStep gcra call store key) hcall hs
    · exact absurd hmark hidle
    · rw [← hobs]
      exact hs'.level_le

/-- A read that spends most of the burst, and a batch of a read and a write that comes at a clock
that has gone back. -/
def readCall : letI := vectorSha2; Call GcraPolicy :=
  letI := vectorSha2
  ⟨Duration.fromMillis 5, .check ⟨readPolicy, Digest.replicate 1, 18, by decide, by decide⟩⟩

def readWriteCall : letI := vectorSha2; Call GcraPolicy :=
  letI := vectorSha2
  ⟨Duration.fromMillis 3, .checkAll
    [Check.new readPolicy (Digest.replicate 1), Check.new writePolicy (Digest.replicate 2)]⟩

/-- Fingerprints that do not collide give every key its quota. -/
theorem quotaOf_of_injOn [Sha2] {calls : List (Call GcraPolicy)} {policy : GcraPolicy} {subject : SubjectKey}
    {known : Set GcraPolicy} (hfree : Set.InjOn Sha2.sha256 (GcraPolicy.preimage '' known))
    (hcalls : policies calls ⊆ known) (hpolicy : policy ∈ known) :
    QuotaOf calls ⟨policy.fingerprint, subject⟩ policy := by
  intro call hcall c hc hkey
  have hc' : c.policy ∈ known := hcalls ⟨call, hcall, c, hc, rfl⟩
  have hfingerprint : Sha2.sha256 c.policy.preimage = Sha2.sha256 policy.preimage :=
    congrArg CounterKey.fingerprint hkey
  have hpreimage := hfree (Set.mem_image_of_mem _ hc') (Set.mem_image_of_mem _ hpolicy) hfingerprint
  obtain ⟨-, -, hq, hp, hb⟩ := GcraPolicy.preimage_inj hpreimage
  exact ⟨hq, hp, hb⟩

theorem gcra_rate_bound_read :
    letI := vectorSha2
    ∃ first last, GcraStore.run pairConfig [readCall, readWriteCall] = [first, last] ∧
      first.cost ⟨readPolicy.fingerprint, Digest.replicate 1⟩ = 18 ∧
      last.cost ⟨readPolicy.fingerprint, Digest.replicate 1⟩ = 1 ∧
      first.nowMillis ≤ last.nowMillis ∧
      ([first, last].map (Event.cost · ⟨readPolicy.fingerprint, Digest.replicate 1⟩)).sum * 1000 ≤
        20 * 1000 + (last.nowMillis - first.nowMillis) * 10 := by
  let := vectorSha2
  have hsub : policies [readCall, readWriteCall] ⊆ {readPolicy, writePolicy} := by
    rintro p ⟨call, hcall, c, hc, rfl⟩
    rcases List.mem_pair.1 hcall with rfl | rfl
    · rw [List.mem_singleton.1 hc]
      exact Or.inl rfl
    · rcases List.mem_pair.1 hc with rfl | rfl
      · exact Or.inl rfl
      · exact Or.inr rfl
  have hquota : QuotaOf [readCall, readWriteCall] ⟨readPolicy.fingerprint, Digest.replicate 1⟩ readPolicy :=
    quotaOf_of_injOn vector_gcra_injOn hsub (Or.inl rfl)
  exact ⟨_, _, rfl, by decide +kernel, by decide +kernel,
    gcra_rate_bound pairConfig [readCall, readWriteCall] ⟨readPolicy.fingerprint, Digest.replicate 1⟩
      readPolicy hquota 0 1 (by decide) _ _ rfl rfl ⟨by decide +kernel, by decide +kernel⟩
      ⟨by decide +kernel, by decide +kernel⟩⟩

end Runlimit
