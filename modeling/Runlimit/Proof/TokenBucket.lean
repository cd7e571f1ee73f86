import Runlimit.Proof.GcraRate
import Runlimit.Spec.TokenBucket

/-!
# GCRA is the token bucket

A shard *tracks* a bucket if the bucket, refilled up to the observed time, holds what the level
of the key leaves of the burst span. Every call keeps this, and the answer to a check of the key
is the answer of the bucket (`serve_tracks`), so the events of every run follow the bucket
(`gcra_token_bucket`). An arrival time that was reached stands for a full bucket: that is why the
store may forget it.
-/

namespace Runlimit

variable [Sha2] {config : MemoryStoreConfig} {policy : GcraPolicy} {key : CounterKey}
  {bucket : TokenBucket} {s s' : RefShard GcraEntry}

namespace TokenBucket

omit [Sha2] in
/-- Counting the tokens at some time on the way changes nothing. -/
theorem tokensAt_of_le {t t' : ℕ} (h : bucket.lastMillis ≤ t) (h' : t ≤ t') :
    bucket.tokensAt policy t' =
      Bucket.refill policy.quota.get (maximum policy) (bucket.tokensAt policy t) (t' - t) := by
  unfold tokensAt
  -- refilling twice is refilling once over the whole time
  rw [Bucket.refill_refill]
  congr 1
  omega

/-- The shard of a key stands for the bucket. -/
structure Tracks (policy : GcraPolicy) (key : CounterKey) (s : RefShard GcraEntry) (bucket : TokenBucket) :
    Prop where
  last_le : bucket.lastMillis ≤ s.observedMillis
  tokens_eq : bucket.tokensAt policy s.observedMillis =
    Bucket.tokens policy.quota.get (maximum policy) s.observedMillis (policy.levelOf key s)

omit [Sha2] in
/-- Only the quota of a policy matters. -/
theorem tracks_congr {policy' : GcraPolicy} (h : policy'.SameQuota policy) :
    Tracks policy' key s bucket ↔ Tracks policy key s bucket := by
  obtain ⟨hq, hp, hb⟩ := h
  have htokens : (bucket.tokensAt policy' s.observedMillis = Bucket.tokens policy'.quota.get (maximum policy')
      s.observedMillis (policy'.levelOf key s)) ↔ (bucket.tokensAt policy s.observedMillis =
        Bucket.tokens policy.quota.get (maximum policy) s.observedMillis (policy.levelOf key s)) := by
    unfold tokensAt maximum GcraPolicy.levelOf
    rw [hq, hp, hb]
  exact ⟨fun h => ⟨h.last_le, htokens.1 h.tokens_eq⟩, fun h => ⟨h.last_le, htokens.2 h.tokens_eq⟩⟩

omit [Sha2] in
/-- A fresh shard stands for a full bucket. -/
theorem Tracks.new : Tracks policy key RefShard.new (TokenBucket.new policy) where
  last_le := le_rfl
  tokens_eq := by
    have hlevel : policy.levelOf key RefShard.new = 0 * policy.quota.get := by
      unfold GcraPolicy.levelOf
      exact Bucket.level_none
    rw [hlevel, show (RefShard.new : RefShard GcraEntry).observedMillis = 0 from rfl, Bucket.tokens_scaled]
    unfold tokensAt Bucket.refill TokenBucket.new
    simp only
    omega

omit [Sha2] in
/-- The tokens at the time of the next touch. -/
theorem Tracks.tokensAt_eq (h : Tracks policy key s bucket) (hs : policy.Sound key s) {now : ℕ}
    (hobs : s.observedMillis ≤ now) :
    bucket.tokensAt policy now = Bucket.tokens policy.quota.get (maximum policy) now
      (max (policy.levelOf key s) (now * policy.quota.get)) := by
  rw [tokensAt_of_le h.last_le hobs, h.tokens_eq]
  exact (Bucket.tokens_advance hobs Bucket.scaled_le_level hs.level_le).symm

omit [Sha2] in
/-- Time passes, and the bucket is not counted. -/
theorem Tracks.advance (h : Tracks policy key s bucket) (hs : policy.Sound key s) {now : ℕ}
    (hobs : s.observedMillis ≤ now) (hobs' : s'.observedMillis = now)
    (hlevel : policy.levelOf key s' = max (policy.levelOf key s) (now * policy.quota.get)) :
    Tracks policy key s' bucket where
  last_le := by
    have := h.last_le
    omega
  tokens_eq := by
    rw [hobs', hlevel]
    exact h.tokensAt_eq hs hobs

omit [Sha2] in
/-- A bucket counted now. -/
theorem tracks_counted {tokens now : ℕ} (hobs' : s'.observedMillis = now) (hle : tokens ≤ maximum policy)
    (htokens : tokens = Bucket.tokens policy.quota.get (maximum policy) now (policy.levelOf key s')) :
    Tracks policy key s' ⟨tokens, now⟩ where
  last_le := hobs'.ge
  tokens_eq := by
    rw [hobs', ← htokens]
    unfold tokensAt Bucket.refill
    rw [Nat.sub_self, Nat.zero_mul, Nat.add_zero, Nat.min_eq_right hle]

end TokenBucket

/-! ## The transition, in tokens -/

omit [Sha2] in
theorem allowance_eq {a b : Allowance} (hcapacity : a.capacity = b.capacity)
    (havailable : a.available = b.available) (hafter : a.replenishesAfter = b.replenishesAfter) : a = b := by
  cases a
  cases b
  simp_all

open Gcra in
/-- **The exact transition is the answer of the bucket**, at the level a shard keeps. -/
theorem exact_eq_bucket {c : Check GcraPolicy} {now : ℕ} {tat : Option ℕ}
    (htat : ∀ t ∈ tat, t ≤ ceiling c now)
    (htokens : bucket.tokensAt c.policy now = Bucket.tokens c.policy.quota.get
      (TokenBucket.maximum c.policy) now (Bucket.level c.policy.quota.get now tat)) :
    (∃ d, exact c now tat = .denied d ∧
        bucket.check c now = (.quotaExceeded c.quotaMode d, ⟨bucket.tokensAt c.policy now, now⟩)) ∨
      ∃ pending, exact c now tat = .allowed pending ∧
        bucket.check c now = (.allowed pending.allowance,
          ⟨bucket.tokensAt c.policy now - c.cost * c.policy.period.millis, now⟩) := by
  set l := Bucket.level c.policy.quota.get now tat with hl
  set w := c.cost * c.policy.period.millis with hw
  have hcandidate : candidate c now tat = l + w := by
    rw [hl, Bucket.level_eq_getD]
    rfl
  have hceiling : ceiling c now = now * c.policy.quota.get + TokenBucket.maximum c.policy := rfl
  have hscaled : now * c.policy.quota.get ≤ l := Bucket.scaled_le_level
  -- a stored arrival time is at most the ceiling, so no token count is cut off at zero
  have hspan : l ≤ now * c.policy.quota.get + TokenBucket.maximum c.policy := by
    rw [← hceiling, hl]
    refine max_le ?_ (Nat.le_add_right _ _)
    cases tat with
    | none => exact Nat.zero_le _
    | some t => exact htat t rfl
  unfold Bucket.tokens at htokens
  unfold exact TokenBucket.check
  by_cases hlt : ceiling c now < candidate c now tat
  · rw [if_pos hlt]
    refine Or.inl ⟨_, rfl, ?_⟩
    simp only
    rw [if_pos (by rw [← hw]; omega)]
    -- the tokens that are missing are what the candidate is over the ceiling
    have hretry : w - bucket.tokensAt c.policy now = candidate c now tat - ceiling c now := by omega
    unfold retryMillis
    rw [← hw, hretry]
  · rw [if_neg hlt]
    refine Or.inr ⟨_, rfl, ?_⟩
    simp only
    rw [if_neg (by rw [← hw]; omega)]
    have hleft : bucket.tokensAt c.policy now - w = ceiling c now - candidate c now tat := by omega
    -- the tokens that are missing to a full bucket are what the candidate is ahead of now
    have hmissing : TokenBucket.maximum c.policy - (bucket.tokensAt c.policy now - w) =
        candidate c now tat - scaledNow c now := by
      unfold scaledNow
      omega
    refine Prod.ext (congrArg Decision.allowed (allowance_eq rfl ?_ ?_)) rfl
    · exact congrArg (· / c.policy.period.millis) hleft
    · exact congrArg (fun span => Delay.mk (Duration.fromMillis (divCeil span c.policy.quota.get))) hmissing

/-! ## Calls -/

/-- The single checks of a key are under its quota, and it is not in a batch. -/
def SingleChecks (calls : List (Call GcraPolicy)) (key : CounterKey) (policy : GcraPolicy) : Prop :=
  ∀ call ∈ calls, ∀ c ∈ call.request.checks, c.counterKey = key →
    call.request = .check c ∧ c.policy.SameQuota policy

/-- A check of the key, on a shard that tracks the bucket: the verdict is the bucket's. -/
theorem evaluate_tracks {c : Check GcraPolicy} {now : ℕ} (hnow : now < 2 ^ 64)
    (hs : c.policy.Sound key s) (htracks : TokenBucket.Tracks c.policy key s bucket)
    (hobs : s.observedMillis ≤ now) :
    (∃ d, gcra.evaluate c now ((s.advance now).entries.lookup key) = .ok (.denied d) ∧
        bucket.check c now = (.quotaExceeded c.quotaMode d, ⟨bucket.tokensAt c.policy now, now⟩)) ∨
      ∃ entry allowance,
        gcra.evaluate c now ((s.advance now).entries.lookup key) = .ok (.allowed entry allowance) ∧
        bucket.check c now = (.allowed allowance,
          ⟨bucket.tokensAt c.policy now - c.cost * c.policy.period.millis, now⟩) := by
  set tat := ((s.advance now).entries.lookup key).map (·.value.tatScaled) with htatdef
  have htat : ∀ t ∈ tat, t ≤ Gcra.ceiling c now := by
    intro t ht
    obtain ⟨entry, hlookup, rfl⟩ := Option.map_eq_some_iff.1 ht
    exact (hs.advance hobs entry hlookup).2
  have htokens : bucket.tokensAt c.policy now = Bucket.tokens c.policy.quota.get
      (TokenBucket.maximum c.policy) now (Bucket.level c.policy.quota.get now tat) := by
    rw [htracks.tokensAt_eq hs hobs, ← hs.level_advance hobs]
    rfl
  have hevaluate : gcra.evaluate c now ((s.advance now).entries.lookup key) =
      .ok (gcraVerdict (Gcra.exact c now tat)) := by
    change (Gcra.evaluate c now tat).map gcraVerdict = _
    rw [Gcra.evaluate_exact_of_lt hnow fun t ht => (htat t ht).trans (Gcra.ceiling_le _ _), except_map_ok]
  rw [hevaluate]
  rcases exact_eq_bucket htat htokens with ⟨d, hexact, hbucket⟩ | ⟨pending, hexact, hbucket⟩
  · rw [hexact]
    exact Or.inl ⟨d, rfl, hbucket⟩
  · rw [hexact]
    exact Or.inr ⟨_, _, rfl, hbucket⟩

open TokenBucket in
/-- A single check of the key is refused for lack of storage, or answered by the bucket. -/
theorem check_tracks {store : RefStore config GcraEntry} {reading : Duration} {c : Check GcraPolicy}
    {event : Event GcraPolicy} {store' : RefStore config GcraEntry}
    (hserve : RefStore.serve gcra ⟨reading, .check c⟩ store = (event, store')) (hkey : c.counterKey = key)
    (hs : c.policy.Sound key (store (config.shardIndex key)))
    (htracks : Tracks c.policy key (store (config.shardIndex key)) bucket)
    (hnow : event.nowMillis < 2 ^ 64) :
    (event.response.StorageDenied ∧ event.costs key = []) ∨
      (event.response = .check (.returned (.ok (bucket.check c event.nowMillis).1)) ∧
        Tracks c.policy key (store' (config.shardIndex key)) (bucket.check c event.nowMillis).2) := by
  have hstep := RefStore.serve_keyStep gcra ⟨reading, .check c⟩ store key
  rw [hserve] at hstep
  have hquota : ∀ d ∈ event.request.checks, d.counterKey = key → d.policy.SameQuota c.policy := by
    obtain ⟨rfl, -⟩ := Prod.mk.inj hserve
    intro d hd _
    rw [List.mem_singleton.1 hd]
    exact ⟨rfl, rfl, rfl⟩
  obtain ⟨-, hlevel⟩ := keyStep_level hstep hquota hs
  obtain ⟨nowMillis, request, response⟩ := event
  obtain ⟨hevent, -⟩ := Prod.mk.inj hserve
  obtain ⟨hnowMillis, hrequest, hresponse⟩ := Event.mk.inj hevent
  change Request.check c = request at hrequest
  change Response.check (.returned ((RefStore.check gcra (clampedMillis store.observed [c] reading) c
    store).1.mapError fun _ => .arithmeticOverflow)) = response at hresponse
  change clampedMillis store.observed [c] reading = nowMillis at hnowMillis
  subst hrequest
  rw [hnowMillis] at hresponse
  have hshard : c.shard config = config.shardIndex key := by
    rw [← hkey]
    rfl
  have hmem : config.shardIndex key ∈ touched config [c] := mem_touched.2 ⟨c, List.mem_cons_self, hshard⟩
  have hobs : (store (config.shardIndex key)).observedMillis ≤ nowMillis := by
    rw [← hnowMillis]
    change store.observed _ ≤ _
    exact le_clampedMillis hmem
  have hentry : (store.advance {c.shard config} nowMillis).entry c =
      ((store (config.shardIndex key)).advance nowMillis).entries.lookup key := by
    unfold RefStore.entry
    rw [RefStore.advance_of_mem (Finset.mem_singleton_self _), hshard, hkey]
  have htokens := htracks.tokensAt_eq hs hobs
  simp only at hnow hlevel ⊢
  rcases evaluate_tracks hnow hs htracks hobs with ⟨d, hev, hbucket⟩ | ⟨entry, allowance, hev, hbucket⟩
  · rw [← hentry] at hev
    rcases RefStore.check_cases gcra nowMillis c store with ⟨e, h, -⟩ | ⟨d', h, heq⟩ | ⟨_, _, h, -⟩
    · rw [hev] at h; cases h
    · rw [hev] at h
      cases h
      rw [heq] at hresponse
      subst hresponse
      -- refused for quota: the tokens are counted, none is taken
      refine Or.inr ⟨by rw [hbucket]; rfl, ?_⟩
      rcases hlevel with ⟨hidle, -⟩ | ⟨-, -, hobs', hlevel⟩
      · exact absurd ⟨rfl, hmem⟩ hidle
      · unfold Event.cost at hlevel
        rw [costs_of_not_allowed (RefStore.quotaExceeded_not_allowed c.quotaMode d), List.sum_nil,
          Nat.zero_mul, Nat.add_zero] at hlevel
        rw [hbucket]
        exact tracks_counted hobs' (Bucket.refill_le _ _) (by rw [hlevel]; exact htokens)
    · rw [hev] at h; cases h
  · rw [← hentry] at hev
    rcases RefStore.check_cases gcra nowMillis c store with
      ⟨e, h, -⟩ | ⟨d', h, -⟩ | ⟨_, _, h, ⟨after, heq⟩ | heq⟩
    · rw [hev] at h; cases h
    · rw [hev] at h; cases h
    · rw [heq] at hresponse
      subst hresponse
      -- refused for storage: nothing is charged
      exact Or.inl ⟨⟨after, rfl⟩, costs_of_not_allowed rfl⟩
    · rw [hev] at h
      cases h
      rw [heq] at hresponse
      subst hresponse
      refine Or.inr ⟨by rw [hbucket]; rfl, ?_⟩
      rcases hlevel with ⟨hidle, -⟩ | ⟨-, -, hobs', hlevel⟩
      · exact absurd ⟨rfl, hmem⟩ hidle
      · -- allowed: the cost of this check is the only one charged to the key
        have hcosts : Event.costs ⟨nowMillis, .check c, .check (.returned (.ok (.allowed allowance)))⟩ key =
            [c.cost] := by
          rw [← hkey]
          exact costs_of_mem rfl (List.nodup_singleton _) List.mem_cons_self
        have hcost := congrArg List.sum hcosts
        rw [List.sum_singleton] at hcost
        change Event.cost _ key = c.cost at hcost
        change _ = _ + Event.cost ⟨nowMillis, .check c, .check (.returned (.ok (.allowed allowance)))⟩ key * _
          at hlevel
        rw [hcost] at hlevel
        rw [hbucket]
        refine tracks_counted hobs' ((Nat.sub_le _ _).trans (Bucket.refill_le _ _)) ?_
        rw [hlevel, Bucket.tokens_charge, htokens]

open TokenBucket in
/-- **One call.** The shard goes on tracking the bucket, and answers as it does. -/
theorem serve_tracks {store : RefStore config GcraEntry} {call : Call GcraPolicy}
    {event : Event GcraPolicy} {store' : RefStore config GcraEntry}
    (hserve : RefStore.serve gcra call store = (event, store'))
    (hs : policy.Sound key (store (config.shardIndex key)))
    (htracks : Tracks policy key (store (config.shardIndex key)) bucket)
    (hcall : ∀ c ∈ call.request.checks, c.counterKey = key →
      call.request = .check c ∧ c.policy.SameQuota policy)
    (hnow : event.nowMillis < 2 ^ 64) :
    ((∀ c ∈ event.request.checks, c.counterKey ≠ key) ∧
        Tracks policy key (store' (config.shardIndex key)) bucket) ∨
      ∃ c, event.request = .check c ∧ c.counterKey = key ∧
        ((event.response.StorageDenied ∧ Tracks policy key (store' (config.shardIndex key)) bucket) ∨
          (event.response = .check (.returned (.ok (bucket.check c event.nowMillis).1)) ∧
            Tracks policy key (store' (config.shardIndex key)) (bucket.check c event.nowMillis).2)) := by
  have hstep := RefStore.serve_keyStep gcra call store key
  have hrequest : call.request = event.request := congrArg (fun r => r.1.request) hserve
  rw [hserve] at hstep
  rw [hrequest] at hcall
  obtain ⟨-, hlevel⟩ := keyStep_level hstep (fun c hc hkey => (hcall c hc hkey).2) hs
  -- a call that charges nothing to the key only lets time pass
  have hpass : event.costs key = [] → Tracks policy key (store' (config.shardIndex key)) bucket := by
    intro hcosts
    rcases hlevel with ⟨-, -, hsame⟩ | ⟨-, hobs, hobs', hlevel⟩
    · simp only at hsame
      rw [hsame]
      exact htracks
    · unfold Event.cost at hlevel
      rw [hcosts, List.sum_nil, Nat.zero_mul, Nat.add_zero] at hlevel
      exact htracks.advance hs hobs hobs' hlevel
  by_cases hother : ∀ c ∈ event.request.checks, c.counterKey ≠ key
  · exact Or.inl ⟨hother, hpass (costs_of_notMem hother)⟩
  · push Not at hother
    obtain ⟨c, hc, hkey⟩ := hother
    obtain ⟨hcheck, hquota⟩ := hcall c hc hkey
    have hserve : RefStore.serve gcra ⟨call.reading, .check c⟩ store = (event, store') := by
      rw [← hserve, ← hcheck, ← hrequest]
    refine Or.inr ⟨c, hcheck, hkey, ?_⟩
    rcases check_tracks hserve hkey ((GcraPolicy.sound_congr hquota).2 hs) ((tracks_congr hquota).2 htracks)
      hnow with ⟨hdenied, hcosts⟩ | ⟨hanswer, htracks'⟩
    · exact Or.inl ⟨hdenied, hpass hcosts⟩
    · exact Or.inr ⟨hanswer, (tracks_congr hquota).1 htracks'⟩

/-! ## Runs -/

/-- A time no later than some bound stays so. -/
theorem serve_observed_le {store : RefStore config GcraEntry} {call : Call GcraPolicy} {bound : ℕ}
    (hstore : ∀ i, (store i).observedMillis ≤ bound) (hreading : call.reading.asMillis ≤ bound) :
    (RefStore.serve gcra call store).1.nowMillis ≤ bound ∧
      ∀ i, ((RefStore.serve gcra call store).2 i).observedMillis ≤ bound := by
  have hnow : (RefStore.serve gcra call store).1.nowMillis ≤ bound :=
    max_le hreading (Finset.sup_le fun i _ => hstore i)
  refine ⟨hnow, ?_⟩
  intro i
  rcases RefStore.observed_serve gcra call store i with h | h
  · rw [h]
    exact hstore i
  · rw [h]
    exact hnow

/-- A clock that does not go back gives the times of the operations. -/
theorem outputs_nowMillis : ∀ (calls : List (Call GcraPolicy)) (store : RefStore config GcraEntry),
    (calls.map (·.reading.asMillis)).Pairwise (· ≤ ·) →
    (∀ call ∈ calls, ∀ i, (store i).observedMillis ≤ call.reading.asMillis) →
    (Machine.outputs (RefStore.serve gcra) store calls).map Event.nowMillis =
      calls.map (·.reading.asMillis) := by
  intro calls
  induction calls with
  | nil => intro store _ _; rfl
  | cons call rest ih =>
    intro store hmono hstore
    rw [List.map_cons, List.pairwise_cons] at hmono
    rw [List.forall_mem_cons] at hstore
    obtain ⟨hnow, hobs⟩ := serve_observed_le hstore.1 le_rfl
    have hge : call.reading.asMillis ≤ (RefStore.serve gcra call store).1.nowMillis := le_max_left _ _
    rw [Machine.outputs_cons, List.map_cons, List.map_cons, ih _ hmono.2]
    · rw [le_antisymm hnow hge]
    · intro call' hcall' i
      exact (hobs i).trans (hmono.1 _ (List.mem_map_of_mem hcall'))

open TokenBucket in
theorem outputs_follow : ∀ (calls : List (Call GcraPolicy)) (store : RefStore config GcraEntry)
    (bucket : TokenBucket), SingleChecks calls key policy →
    (∀ call ∈ calls, call.reading.asMillis < 2 ^ 64) → (∀ i, (store i).observedMillis ≤ 2 ^ 64 - 1) →
    policy.Sound key (store (config.shardIndex key)) →
    Tracks policy key (store (config.shardIndex key)) bucket →
    Follows key bucket (Machine.outputs (RefStore.serve gcra) store calls) := by
  intro calls
  induction calls with
  | nil => intro store bucket _ _ _ _ _; exact .nil bucket
  | cons call rest ih =>
    intro store bucket hcalls hlt hobs hs htracks
    unfold SingleChecks at hcalls
    rw [List.forall_mem_cons] at hcalls hlt
    obtain ⟨hnow, hobs'⟩ := serve_observed_le hobs (by omega : call.reading.asMillis ≤ 2 ^ 64 - 1)
    have hs' := (keyStep_level (RefStore.serve_keyStep gcra call store key)
      (fun c hc hkey => (hcalls.1 c hc hkey).2) hs).1
    rw [Machine.outputs_cons]
    rcases serve_tracks (Prod.mk.eta).symm hs htracks hcalls.1 (by omega) with
      ⟨hother, htracks'⟩ | ⟨c, hrequest, hkey, ⟨hdenied, htracks'⟩ | ⟨hanswer, htracks'⟩⟩
    · exact .other hother (ih _ _ hcalls.2 hlt.2 hobs' hs' htracks')
    · exact .storageDenied c hrequest hkey hdenied (ih _ _ hcalls.2 hlt.2 hobs' hs' htracks')
    · exact .answered c hrequest hkey hanswer (ih _ _ hcalls.2 hlt.2 hobs' hs' htracks')

/-- **GCRA is the token bucket.** Over every run whose clock does not go back and stays below
`2 ^ 64` milliseconds, the single checks of a key are answered, storage denials apart, as by the
token bucket of its policy, whatever is asked of other keys in between. -/
theorem gcra_token_bucket (config : MemoryStoreConfig) (calls : List (Call GcraPolicy)) (key : CounterKey)
    (policy : GcraPolicy) (hcalls : SingleChecks calls key policy)
    (hmono : (calls.map (·.reading.asMillis)).Pairwise (· ≤ ·))
    (hlt : ∀ call ∈ calls, call.reading.asMillis < 2 ^ 64) :
    (GcraStore.run config calls).map Event.nowMillis = calls.map (·.reading.asMillis) ∧
      Follows key (TokenBucket.new policy) (GcraStore.run config calls) := by
  rw [(GcraStore.run_eq config calls).1]
  refine ⟨outputs_nowMillis calls _ hmono fun _ _ _ => Nat.zero_le _, ?_⟩
  exact outputs_follow calls _ _ hcalls hlt (fun _ => Nat.zero_le _) GcraPolicy.Sound.new
    TokenBucket.Tracks.new

/-- Two reads that together exceed the burst, with a write between them. -/
def drainCalls : letI := vectorSha2; List (Call GcraPolicy) :=
  letI := vectorSha2
  [readCall,
    ⟨Duration.fromMillis 7, .check (Check.new writePolicy (Digest.replicate 2))⟩,
    ⟨Duration.fromMillis 9, .check ⟨readPolicy, Digest.replicate 1, 3, Nat.succ_pos _, by decide⟩⟩]

omit [Sha2] in
theorem gcra_token_bucket_drain :
    letI := vectorSha2
    (GcraStore.run pairConfig drainCalls).map Event.nowMillis = [5, 7, 9] ∧
      Follows ⟨readPolicy.fingerprint, Digest.replicate 1⟩ (TokenBucket.new readPolicy)
        (GcraStore.run pairConfig drainCalls) := by
  let := vectorSha2
  have hcalls : SingleChecks drainCalls ⟨readPolicy.fingerprint, Digest.replicate 1⟩ readPolicy := by
    intro call hcall c hc hkey
    unfold drainCalls at hcall
    simp only [List.mem_cons, List.not_mem_nil, or_false] at hcall
    rcases hcall with rfl | rfl | rfl
    · rw [List.mem_singleton.1 hc]
      exact ⟨rfl, rfl, rfl, rfl⟩
    · rw [List.mem_singleton.1 hc] at hkey
      exact absurd (congrArg CounterKey.subject hkey) (by decide)
    · rw [List.mem_singleton.1 hc]
      exact ⟨rfl, rfl, rfl, rfl⟩
  exact gcra_token_bucket pairConfig drainCalls _ readPolicy hcalls (by decide) (by decide)

end Runlimit
