import Runlimit.Proof.BatchChecks
import Runlimit.Proof.GcraRange

/-!
# Retry hints are exact

A refused check carries the milliseconds after which the same check would be allowed. The hint
is exact in both directions: until it has passed the check is refused in the same way, with
what is left of the hint, and from then on it is allowed.

* `Algorithm.Recovers`: what this asks of a quota algorithm; both have it
  (`fixedWindow_recovers`, `gcra_recovers`);
* `RefShard.decision_exact`: the hint of one shard of the reference store, which is the quota's or
  the earliest expiry of a full shard;
* `retry_hints_exact`: single checks of both stores, in every state they reach.

That a passed quota hint is not followed by a capacity denial is a count: if the entry of the
key has expired meanwhile, its place is free.
-/

namespace Runlimit

open Gcra (ArithmeticOverflow)

/-- How a check is refused. -/
inductive Refusal where
  | quota
  | shadowQuota
  | storage
  deriving DecidableEq

/-- The kind of a refusal and the hint it carries. -/
def Decision.refusal : Decision → Option (Refusal × Option Delay)
  | .allowed _ => none
  | .denied (.quotaExceeded denial) => some (.quota, some denial.retryAfter)
  | .denied (.storageCapacity retryAfter) => some (.storage, retryAfter)
  | .shadowDenied denial => some (.shadowQuota, some denial.retryAfter)

/-- A hint is exact; `answers d` says which decision the same check gets `d` milliseconds later. -/
def HintExact (times : ℕ → Prop) (kind : Refusal) (hint : Option Delay) (answers : ℕ → Decision → Prop) : Prop :=
  ∃ retry, 1 ≤ retry ∧ hint = some ⟨Duration.fromMillis retry⟩ ∧ ∀ d, times d →
    (d < retry → ∃ decision, answers d decision ∧
      decision.refusal = some (kind, some ⟨Duration.fromMillis (retry - d)⟩)) ∧
    (retry ≤ d → ∃ allowance, answers d (.allowed allowance))

/-- Exactness carries over to another description of the same answers. -/
theorem HintExact.mono {times : ℕ → Prop} {kind : Refusal} {hint : Option Delay}
    {answers answers' : ℕ → Decision → Prop} (h : HintExact times kind hint answers)
    (himp : ∀ d decision, answers d decision → answers' d decision) : HintExact times kind hint answers' := by
  obtain ⟨retry, hpos, hhint, hlater⟩ := h
  refine ⟨retry, hpos, hhint, fun d hd => ⟨fun hlt => ?_, fun hle => ?_⟩⟩
  · obtain ⟨decision, hanswers, hrefused⟩ := (hlater d hd).1 hlt
    exact ⟨decision, himp d decision hanswers, hrefused⟩
  · obtain ⟨allowance, hanswers⟩ := (hlater d hd).2 hle
    exact ⟨allowance, himp d _ hanswers⟩

variable {P E : Type} [RateLimitPolicy P] {config : MemoryStoreConfig} {alg : Algorithm P E}

/-! ## Quota algorithms -/

/-- An algorithm whose hints are exact for a check: a key without an entry is granted it, and an entry
that denies it does so until the hint has passed, while it is live. -/
structure Algorithm.Recovers (alg : Algorithm P E) (times : ℕ → Prop) (c : Check P) (I : StoredEntry E → Prop) :
    Prop where
  fresh : ∀ now, times now → ∃ entry allowance, alg.evaluate c now none = .ok (.allowed entry allowance)
  denied : ∀ now entry denial, times now → I entry → now < entry.expiresAtMillis →
    entry.expiresAtMillis ≤ now + maxWindowMillis →
    alg.evaluate c now (some entry) = .ok (.denied denial) →
    ∃ retry, 1 ≤ retry ∧ denial.retryAfter = ⟨Duration.fromMillis retry⟩ ∧ ∀ d, times (now + d) →
      (d < retry → now + d < entry.expiresAtMillis ∧ ∃ denial',
        alg.evaluate c (now + d) (some entry) = .ok (.denied denial') ∧
        denial'.retryAfter = ⟨Duration.fromMillis (retry - d)⟩) ∧
      (retry ≤ d → now + d < entry.expiresAtMillis → ∃ entry' allowance,
        alg.evaluate c (now + d) (some entry) = .ok (.allowed entry' allowance))

section Algorithms

variable [Sha2]

/-- The hint of a window is what is left of it. -/
theorem fixedWindow_recovers (c : Check FixedWindowPolicy) :
    fixedWindow.Recovers (fun _ => True) c fun _ => True where
  fresh now _ := ⟨_, _, rfl⟩
  denied now entry denial _ _ hlive _ hdenied := by
    have hverdict : fixedWindowVerdict c now (some entry) = .denied denial := Except.ok.inj hdenied
    unfold fixedWindowVerdict at hverdict
    simp only at hverdict
    split at hverdict
    · rename_i hover
      cases hverdict
      -- until the window ends its usage stays, so the denial does
      refine ⟨entry.expiresAtMillis - now, by omega, rfl, fun d _ => ⟨fun hd => ⟨by omega, ?_⟩, fun hd hlive' => ?_⟩⟩
      · refine ⟨QuotaDenial.new c.policy.limit (Duration.fromMillis (entry.expiresAtMillis - (now + d))), ?_, ?_⟩
        · change Except.ok (fixedWindowVerdict c (now + d) (some entry)) = _
          unfold fixedWindowVerdict
          simp only [if_pos hover]
        · rw [Nat.sub_sub]
          rfl
      · -- the window is over when its hint is
        omega
    · cases hverdict

namespace Gcra

variable {c : Check GcraPolicy} {now d tat : ℕ}

/-- A check conforms when the clock has made up for the deficit. -/
theorem retryMillis_le_iff (htat : scaledNow c now ≤ tat) :
    retryMillis c now (some tat) ≤ d ↔
      tat + c.cost * c.policy.period.millis ≤ scaledNow c (now + d) + burstSpan c.policy := by
  unfold retryMillis
  rw [divCeil_le_iff (quota_pos c)]
  unfold candidate ceiling
  rw [Option.getD_some, max_eq_left htat]
  unfold scaledNow
  rw [Nat.add_mul]
  omega

/-- Before that the arrival time is still ahead of the clock, and the hint counts down with it. -/
theorem retryMillis_add (htat : scaledNow c now ≤ tat) (hd : d < retryMillis c now (some tat)) :
    scaledNow c (now + d) < tat ∧ ceiling c (now + d) < candidate c (now + d) (some tat) ∧
      retryMillis c (now + d) (some tat) = retryMillis c now (some tat) - d := by
  have hover : scaledNow c (now + d) + burstSpan c.policy < tat + c.cost * c.policy.period.millis := by
    rw [← Nat.not_le, ← retryMillis_le_iff htat]
    exact Nat.not_le.2 hd
  have hcost : c.cost * c.policy.period.millis ≤ burstSpan c.policy := Nat.mul_le_mul_right _ c.cost_le
  -- the cost is at most the burst span, so a denied check has its arrival time ahead
  have hahead : scaledNow c (now + d) < tat := by omega
  have hcandidate : ∀ m, scaledNow c m ≤ tat →
      candidate c m (some tat) = tat + c.cost * c.policy.period.millis := by
    intro m hm
    unfold candidate
    rw [Option.getD_some, max_eq_left hm]
  refine ⟨hahead, ?_, ?_⟩
  · rw [hcandidate _ hahead.le]
    exact hover
  · unfold retryMillis
    rw [hcandidate _ hahead.le, hcandidate _ htat]
    have hsplit : tat + c.cost * c.policy.period.millis - ceiling c now =
        d * c.policy.quota.get + (tat + c.cost * c.policy.period.millis - ceiling c (now + d)) := by
      have hscaled : scaledNow c (now + d) = scaledNow c now + d * c.policy.quota.get := Nat.add_mul _ _ _
      unfold ceiling
      omega
    rw [hsplit, divCeil_add_mul (quota_pos c), Nat.add_sub_cancel_left]

end Gcra

/-- The hint of an arrival time is what the clock lacks of its deficit, rounded up. -/
theorem gcra_recovers {known : Set GcraPolicy} {c : Check GcraPolicy} (hc : c.policy ∈ known) :
    gcra.Recovers (· < 2 ^ 64) c (ExpiresWithTat known c.counterKey) where
  fresh now hnow := by
    have hexact : gcra.evaluate c now none = .ok (gcraVerdict (Gcra.exact c now none)) := by
      change (Gcra.evaluate c now none).map gcraVerdict = _
      rw [Gcra.evaluate_exact_of_lt hnow (fun t ht => by cases ht)]
      rfl
    have hcost : c.cost * c.policy.period.millis ≤ Gcra.burstSpan c.policy := Nat.mul_le_mul_right _ c.cost_le
    -- a check costs no more than the burst span, so a fresh key has room for it
    have hroom : ¬Gcra.ceiling c now < Gcra.candidate c now none := by
      unfold Gcra.ceiling Gcra.candidate
      rw [Option.getD_none, max_self]
      omega
    rw [hexact]
    unfold Gcra.exact
    rw [if_neg hroom]
    exact ⟨_, _, rfl⟩
  denied now entry denial hnow hstored hlive hbound hdenied := by
    have hquota := c.policy.quota.pos
    have hexpires := hstored c.policy hc rfl
    rw [hexpires, lt_divCeil_iff hquota] at hlive
    rw [hexpires, divCeil_le_iff hquota] at hbound
    -- from now on the stored arrival time stays within the exact range
    have hexact : ∀ time, now ≤ time → time < 2 ^ 64 → gcra.evaluate c time (some entry) =
        .ok (gcraVerdict (Gcra.exact c time (some entry.value.tatScaled))) := by
      intro time hle hlt
      change (Gcra.evaluate c time (some entry.value.tatScaled)).map gcraVerdict = _
      have hwindow : (now + maxWindowMillis) * c.policy.quota.get ≤ (time + maxWindowMillis) * c.policy.quota.get :=
        Nat.mul_le_mul_right _ (by omega)
      rw [Gcra.evaluate_exact_of_lt hlt (by
        rintro t ⟨⟩
        exact hbound.trans hwindow)]
      rfl
    have htat : Gcra.scaledNow c now ≤ entry.value.tatScaled := hlive.le
    rw [hexact now le_rfl hnow, Except.ok.injEq] at hdenied
    unfold Gcra.exact at hdenied
    split at hdenied
    · rename_i hover
      cases hdenied
      refine ⟨_, Gcra.retryMillis_pos hover, rfl, fun d hd => ⟨fun hlt => ?_, fun hle hlive' => ?_⟩⟩
      · obtain ⟨hahead, hover', hretry⟩ := Gcra.retryMillis_add htat hlt
        rw [hexpires, lt_divCeil_iff hquota]
        refine ⟨hahead, QuotaDenial.new c.policy.burstCapacity
          (Duration.fromMillis (Gcra.retryMillis c (now + d) (some entry.value.tatScaled))), ?_, ?_⟩
        · rw [hexact (now + d) (Nat.le_add_right _ _) hd]
          unfold Gcra.exact
          rw [if_pos hover']
          rfl
        · rw [hretry]
          rfl
      · rw [hexpires, lt_divCeil_iff hquota] at hlive'
        have hahead : Gcra.scaledNow c (now + d) ≤ entry.value.tatScaled := hlive'.le
        have hroom : ¬Gcra.ceiling c (now + d) < Gcra.candidate c (now + d) (some entry.value.tatScaled) := by
          rw [Gcra.retryMillis_le_iff htat] at hle
          unfold Gcra.ceiling Gcra.candidate
          rw [Option.getD_some, max_eq_left hahead]
          omega
        rw [hexact (now + d) (Nat.le_add_right _ _) hd]
        unfold Gcra.exact
        rw [if_neg hroom]
        exact ⟨_, _, rfl⟩
    · cases hdenied

end Algorithms

/-! ## One shard -/

/-- Every shard has room for one key. -/
theorem shardCapacity_pos (config : MemoryStoreConfig) (i : ℕ) : 0 < config.shardCapacity i := by
  have hdiv : 0 < config.maxKeys / config.shardCount := Nat.div_pos config.shardCount_le config.shardCount_pos
  unfold MemoryStoreConfig.shardCapacity
  omega

/-- A quota denial carries the hint of the algorithm. -/
theorem Decision.refusal_quotaExceeded (mode : QuotaMode) (denial : QuotaDenial) :
    (Decision.quotaExceeded mode denial).refusal =
      some (if mode = .shadow then .shadowQuota else .quota, some denial.retryAfter) := by
  unfold Decision.quotaExceeded
  split
  · rfl
  · rfl

namespace RefShard

variable {s : RefShard E} {c : Check P} {capacity now : ℕ}

/-- The answer of a shard to a check. -/
def decision (alg : Algorithm P E) (capacity now : ℕ) (c : Check P) (s : RefShard E) :
    Except ArithmeticOverflow Decision :=
  match alg.evaluate c now ((s.advance now).entries.lookup c.counterKey) with
  | .error error => .error error
  | .ok (.denied denial) => .ok (.quotaExceeded c.quotaMode denial)
  | .ok (.allowed _ allowance) =>
    if c.counterKey ∉ (s.advance now).entries.keys ∧ capacity ≤ (s.advance now).entries.keys.card then
      .ok (.denied ((s.advance now).full now))
    else .ok (.allowed allowance)

/-- Time that has passed already changes no answer. -/
theorem decision_advance {time : ℕ} (h : time ≤ now) :
    (s.advance time).decision alg capacity now c = s.decision alg capacity now c := by
  unfold decision
  rw [advance_advance_of_le h]

/-- Time only removes entries. -/
theorem keys_advance_subset {later : ℕ} (h : now ≤ later) :
    (s.advance later).entries.keys ⊆ (s.advance now).entries.keys := by
  intro key hkey
  obtain ⟨entry, hentry⟩ := Finmap.mem_keys_iff.1 hkey
  obtain ⟨hlookup, hlive⟩ := lookup_advance.1 hentry
  exact Finmap.mem_keys_iff.2 ⟨entry, lookup_advance.2 ⟨hlookup, by omega⟩⟩

/-- An entry that expires meanwhile leaves its place. -/
theorem card_advance_lt {later : ℕ} {key : CounterKey} {entry : StoredEntry E}
    (hentry : (s.advance now).entries.lookup key = some entry) (h : now ≤ later)
    (hexpired : entry.expiresAtMillis ≤ later) :
    (s.advance later).entries.keys.card < (s.advance now).entries.keys.card := by
  refine Finset.card_lt_card ((Finset.ssubset_iff_of_subset (keys_advance_subset h)).2 ⟨key, ?_, ?_⟩)
  · exact Finmap.mem_keys_iff.2 ⟨entry, hentry⟩
  · intro hkey
    obtain ⟨entry', hentry'⟩ := Finmap.mem_keys_iff.1 hkey
    obtain ⟨hlookup, hlive⟩ := lookup_advance.1 hentry'
    rw [(lookup_advance.1 hentry).1, Option.some.injEq] at hlookup
    rw [← hlookup] at hlive
    omega

theorem decision_denied {denial : QuotaDenial}
    (h : alg.evaluate c now ((s.advance now).entries.lookup c.counterKey) = .ok (.denied denial)) :
    s.decision alg capacity now c = .ok (.quotaExceeded c.quotaMode denial) := by
  unfold decision
  rw [h]

theorem decision_allowed {entry : StoredEntry E} {allowance : Allowance}
    (h : alg.evaluate c now ((s.advance now).entries.lookup c.counterKey) = .ok (.allowed entry allowance))
    (hroom : c.counterKey ∈ (s.advance now).entries.keys ∨ (s.advance now).entries.keys.card < capacity) :
    s.decision alg capacity now c = .ok (.allowed allowance) := by
  unfold decision
  rw [h]
  simp only
  rw [if_neg (by rw [not_and_or, not_not, Nat.not_le]; exact hroom)]

theorem decision_full {entry : StoredEntry E} {allowance : Allowance}
    (h : alg.evaluate c now ((s.advance now).entries.lookup c.counterKey) = .ok (.allowed entry allowance))
    (habsent : c.counterKey ∉ (s.advance now).entries.keys)
    (hfull : capacity ≤ (s.advance now).entries.keys.card) :
    s.decision alg capacity now c = .ok (.denied ((s.advance now).full now)) := by
  unfold decision
  rw [h]
  simp only
  rw [if_pos ⟨habsent, hfull⟩]

/-- A key without an entry is granted the check where there is room. -/
theorem decision_fresh (hfresh : ∃ entry allowance, alg.evaluate c now none = .ok (.allowed entry allowance))
    (habsent : (s.advance now).entries.lookup c.counterKey = none)
    (hroom : (s.advance now).entries.keys.card < capacity) :
    ∃ allowance, s.decision alg capacity now c = .ok (.allowed allowance) := by
  obtain ⟨entry, allowance, hverdict⟩ := hfresh
  rw [← habsent] at hverdict
  exact ⟨allowance, decision_allowed hverdict (Or.inr hroom)⟩

/-- The hint of a quota is exact. -/
theorem decision_quota {times : ℕ → Prop} {I : StoredEntry E → Prop} (hrecovers : alg.Recovers times c I)
    (hcard : (s.advance now).entries.keys.card ≤ capacity) {entry : StoredEntry E} {denial : QuotaDenial}
    (hentry : (s.advance now).entries.lookup c.counterKey = some entry) (hI : I entry)
    (hbound : entry.expiresAtMillis ≤ now + maxWindowMillis) (hnow : times now)
    (hdenied : alg.evaluate c now (some entry) = .ok (.denied denial)) :
    HintExact (fun d => times (now + d)) (if c.quotaMode = .shadow then .shadowQuota else .quota)
      (some denial.retryAfter) fun d decision => s.decision alg capacity (now + d) c = .ok decision := by
  obtain ⟨hlookup, hlive⟩ := lookup_advance.1 hentry
  obtain ⟨retry, hpos, hhint, hlater⟩ := hrecovers.denied now entry denial hnow hI hlive hbound hdenied
  have hstays : ∀ d, now + d < entry.expiresAtMillis →
      (s.advance (now + d)).entries.lookup c.counterKey = some entry :=
    fun d hd => lookup_advance.2 ⟨hlookup, hd⟩
  refine ⟨retry, hpos, by rw [hhint], fun d hd => ⟨fun hlt => ?_, fun hle => ?_⟩⟩
  · obtain ⟨hlive', denial', hdenied', hhint'⟩ := (hlater d hd).1 hlt
    rw [← hstays d hlive'] at hdenied'
    refine ⟨_, decision_denied hdenied', ?_⟩
    rw [Decision.refusal_quotaExceeded, hhint']
  · by_cases hlive' : now + d < entry.expiresAtMillis
    · -- a key that has an entry needs no room
      obtain ⟨entry', allowance, hallowed⟩ := (hlater d hd).2 hle hlive'
      rw [← hstays d hlive'] at hallowed
      exact ⟨allowance, decision_allowed hallowed (Or.inl (Finmap.mem_keys_iff.2 ⟨entry, hstays d hlive'⟩))⟩
    · -- the entry has expired meanwhile: the key is fresh, and its place is free
      have hexpired := Nat.not_lt.1 hlive'
      have hroom := card_advance_lt hentry (Nat.le_add_right now d) hexpired
      refine decision_fresh (hrecovers.fresh _ hd) ?_ (by omega)
      rw [Option.eq_none_iff_forall_ne_some]
      intro entry' hentry'
      obtain ⟨hlookup', hlater'⟩ := lookup_advance.1 hentry'
      rw [hlookup, Option.some.injEq] at hlookup'
      rw [← hlookup'] at hlater'
      exact hlive' hlater'

/-- The hint of a full shard is exact: nothing expires before it has passed, and then a place is
free. -/
theorem decision_storage {times : ℕ → Prop} {I : StoredEntry E → Prop} (hrecovers : alg.Recovers times c I)
    (hcapacity : 0 < capacity) (hcard : (s.advance now).entries.keys.card ≤ capacity)
    (habsent : c.counterKey ∉ (s.advance now).entries.keys)
    (hfull : capacity ≤ (s.advance now).entries.keys.card) {hint : Option Delay}
    (hhint : (s.advance now).full now = .storageCapacity hint) :
    HintExact (fun d => times (now + d)) .storage hint fun d decision => s.decision alg capacity (now + d) c = .ok decision := by
  obtain ⟨first, hfirst⟩ : ∃ first, ((s.advance now).entries.range (·.expiresAtMillis)).first = some first := by
    rw [← Option.ne_none_iff_exists', Ne, Finset.first_eq_none, ← Ne, ← Finset.nonempty_iff_ne_empty]
    obtain ⟨key, hkey⟩ : (s.advance now).entries.keys.Nonempty := Finset.card_pos.1 (by omega)
    obtain ⟨entry, hentry⟩ := Finmap.mem_keys_iff.1 hkey
    exact ⟨_, Finmap.mem_range.2 ⟨key, entry, hentry, rfl⟩⟩
  obtain ⟨hmem, hleast⟩ := Finset.first_eq_some.1 hfirst
  obtain ⟨key, entry, hentry, rfl⟩ := Finmap.mem_range.1 hmem
  have hlive := (lookup_advance.1 hentry).2
  have hhint' : hint = some ⟨Duration.fromMillis (entry.expiresAtMillis - now)⟩ := by
    unfold full at hhint
    rw [hfirst, Option.map_some] at hhint
    cases hhint
    rfl
  refine ⟨entry.expiresAtMillis - now, by omega, hhint', fun d hd => ⟨fun hlt => ?_, fun hle => ?_⟩⟩
  · -- the earliest entry is still there, and so is every other
    have hsame : (s.advance (now + d)).entries = (s.advance now).entries := by
      refine Finmap.ext_lookup fun k => Option.ext fun e => ?_
      rw [lookup_advance, lookup_advance]
      refine and_congr_right fun hlookup => ⟨fun h => by omega, fun h => ?_⟩
      have := hleast e.expiresAtMillis (Finmap.mem_range.2 ⟨k, e, lookup_advance.2 ⟨hlookup, h⟩, rfl⟩)
      omega
    obtain ⟨stored, allowance, hallowed⟩ := hrecovers.fresh _ hd
    rw [← hsame] at habsent hfull
    rw [← Finmap.notMem_keys_iff.1 habsent] at hallowed
    refine ⟨_, decision_full hallowed habsent hfull, ?_⟩
    unfold full
    rw [hsame, hfirst, Nat.sub_sub]
    rfl
  · have hroom := card_advance_lt hentry (Nat.le_add_right now d) (by omega)
    have habsent' : c.counterKey ∉ (s.advance (now + d)).entries.keys :=
      fun h => habsent (keys_advance_subset (Nat.le_add_right now d) h)
    exact decision_fresh (hrecovers.fresh _ hd) (Finmap.notMem_keys_iff.1 habsent') (by omega)

/-- **The hint of a shard is exact.** -/
theorem decision_exact {times : ℕ → Prop} {I : StoredEntry E → Prop} (hrecovers : alg.Recovers times c I)
    (hcapacity : 0 < capacity) (hcard : (s.advance now).entries.keys.card ≤ capacity)
    (hstored : ∀ entry, (s.advance now).entries.lookup c.counterKey = some entry →
      I entry ∧ entry.expiresAtMillis ≤ now + maxWindowMillis)
    (hnow : times now) {decision : Decision} {kind : Refusal} {hint : Option Delay}
    (hdecision : s.decision alg capacity now c = .ok decision) (hrefused : decision.refusal = some (kind, hint)) :
    HintExact (fun d => times (now + d)) kind hint fun d decision => s.decision alg capacity (now + d) c = .ok decision := by
  cases hentry : (s.advance now).entries.lookup c.counterKey with
  | none =>
    obtain ⟨entry, allowance, hallowed⟩ := hrecovers.fresh now hnow
    rw [← hentry] at hallowed
    have habsent := Finmap.notMem_keys_iff.2 hentry
    by_cases hfull : capacity ≤ (s.advance now).entries.keys.card
    · rw [decision_full hallowed habsent hfull] at hdecision
      cases hdecision
      cases hrefused
      -- quota but no room
      exact decision_storage hrecovers hcapacity hcard habsent hfull rfl
    · rw [decision_allowed hallowed (Or.inr (Nat.not_le.1 hfull))] at hdecision
      cases hdecision
      cases hrefused
  | some entry =>
    obtain ⟨hI, hbound⟩ := hstored entry hentry
    cases hverdict : alg.evaluate c now (some entry) with
    | error e =>
      unfold RefShard.decision at hdecision
      rw [hentry, hverdict] at hdecision
      cases hdecision
    | ok verdict =>
      cases verdict with
      | denied denial =>
        rw [decision_denied (by rw [hentry]; exact hverdict)] at hdecision
        cases hdecision
        rw [Decision.refusal_quotaExceeded, Option.some.injEq, Prod.mk.injEq] at hrefused
        obtain ⟨rfl, rfl⟩ := hrefused
        exact decision_quota hrecovers hcard hentry hI hbound hnow hverdict
      | allowed entry' allowance =>
        -- a key that has an entry needs no room
        have hpresent := Finmap.mem_keys_iff.2 ⟨entry, hentry⟩
        rw [decision_allowed (by rw [hentry]; exact hverdict) (Or.inl hpresent)] at hdecision
        cases hdecision
        cases hrefused

end RefShard

/-! ## The bounded store -/

namespace RefStore

variable {store : RefStore config E} {c : Check P} {now : ℕ}

/-- The answer of a check is that of its shard. -/
theorem check_decision : (check alg now c store).1 =
    (store (c.shard config)).decision alg (config.shardCapacity (c.shard config)) now c := by
  unfold check RefShard.decision entry
  simp only [advance_of_mem (Finset.mem_singleton_self _)]
  cases alg.evaluate c now (((store (c.shard config)).advance now).entries.lookup c.counterKey) with
  | error e => rfl
  | ok verdict =>
    cases verdict with
    | denied denial => rfl
    | allowed entry allowance =>
      simp only
      split
      · rfl
      · rfl

/-- A refusal stores nothing. -/
theorem check_refused {decision : Decision} (h : (check alg now c store).1 = .ok decision)
    (hrefused : decision.refusal ≠ none) : (check alg now c store).2 = store.advance {c.shard config} now := by
  unfold check at h ⊢
  simp only at h ⊢
  cases hverdict : alg.evaluate c now ((store.advance {c.shard config} now).entry c) with
  | error e =>
    rw [hverdict] at h
    cases h
  | ok verdict =>
    rw [hverdict] at h
    cases verdict with
    | denied denial => rfl
    | allowed entry allowance =>
      simp only at h ⊢
      split at h
      · rename_i hfull
        rw [if_pos hfull]
      · cases h
        exact absurd rfl hrefused

end RefStore

namespace Bounded

variable {data data' : Data config E} {c : Check P} {now later : ℕ} {decision : Decision}

/-- The answer to a check depends on the live entries of its shard only. -/
theorem check_decision (hd : Inv data) (hmax : now ≤ maxMillis) (hobserved : observed data (c.shard config) ≤ now) :
    (check alg now c data).1 = (data (c.shard config)).abs.decision alg (config.shardCapacity (c.shard config)) now c := by
  have hrefines := congrArg Prod.fst (check_refines alg hd hmax hobserved)
  rw [RefStore.check_decision] at hrefines
  exact hrefines.symm

/-- After a refusal, a shard that has been left alone answers as it would have answered before. -/
theorem check_again (hd : Inv data) (hd' : Inv data') (hobserved : observed data (c.shard config) ≤ now)
    (hdecision : (check alg now c data).1 = .ok decision) (hrefused : decision.refusal ≠ none)
    (hsame : data' (c.shard config) = (check alg now c data).2 (c.shard config)) (hle : now ≤ later)
    (hmax : later ≤ maxMillis) :
    observed data' (c.shard config) = now ∧ (check alg later c data').1 =
      (data (c.shard config)).abs.decision alg (config.shardCapacity (c.shard config)) later c := by
  have hrefines := check_refines alg hd (hle.trans hmax) hobserved
  have hcleaned : abs (check alg now c data).2 = (abs data).advance {c.shard config} now := by
    rw [← RefStore.check_refused (by rw [hrefines]; exact hdecision) hrefused, hrefines]
  have habs : (data' (c.shard config)).abs = (data (c.shard config)).abs.advance now := by
    rw [hsame]
    have hshard := congrFun hcleaned (c.shard config)
    rw [RefStore.advance_of_mem (Finset.mem_singleton_self _)] at hshard
    exact hshard
  have hobserved' : observed data' (c.shard config) = now := congrArg RefShard.observedMillis habs
  refine ⟨hobserved', ?_⟩
  rw [check_decision hd' hmax (hobserved'.le.trans hle), habs, RefShard.decision_advance hle]

/-- What one shard promises, the bounded store keeps. -/
theorem check_hintExact {times : ℕ → Prop} {I : CounterKey → StoredEntry E → Prop}
    (hrecovers : alg.Recovers times c (I c.counterKey)) (hd : Inv data) (hd' : Inv data') (hstored : Stored I data)
    (hnow : times now) (hnowMax : now ≤ maxMillis) (hobserved : observed data (c.shard config) ≤ now)
    (hdecision : (check alg now c data).1 = .ok decision) {kind : Refusal} {hint : Option Delay}
    (hrefused : decision.refusal = some (kind, hint))
    (hsame : data' (c.shard config) = (check alg now c data).2 (c.shard config)) :
    HintExact (fun d => times (now + d)) kind hint fun d again => ∀ reading : Duration,
      reading.asMillis = now + d →
      (check alg (clampedMillis (observed data') [c] reading) c data').1 = .ok again := by
  have hrefused' : decision.refusal ≠ none := by
    rw [hrefused]
    exact Option.some_ne_none _
  -- the live entries of a shard are no more than its capacity
  have hcard : ((data (c.shard config)).abs.advance now).entries.keys.card ≤ config.shardCapacity (c.shard config) := by
    have hused := (hd.shard (c.shard config)).used_le.trans_eq (hd.capacity_eq _)
    refine (Finset.card_le_card ?_).trans hused
    rw [Shard.advance_abs_entries hobserved, Finmap.keys_filter]
    exact Finset.filter_subset _ _
  have hentries : ∀ entry, ((data (c.shard config)).abs.advance now).entries.lookup c.counterKey = some entry →
      I c.counterKey entry ∧ entry.expiresAtMillis ≤ now + maxWindowMillis := by
    intro entry hentry
    rw [Shard.lookup_advance_abs hobserved] at hentry
    exact ⟨hstored _ _ entry (Shard.live_eq_some.1 hentry).1, (entry_bound hd hobserved entry hentry).2⟩
  rw [check_decision hd hnowMax hobserved] at hdecision
  refine (RefShard.decision_exact hrecovers (shardCapacity_pos config _) hcard hentries hnow hdecision hrefused).mono ?_
  intro d again hagain reading hreading
  rw [← check_decision hd hnowMax hobserved] at hdecision
  have hmax : now + d ≤ maxMillis := by
    rw [← hreading]
    exact reading.asMillis_le
  obtain ⟨hobserved', hcheck⟩ := check_again hd hd' hobserved hdecision hrefused' hsame (Nat.le_add_right now d) hmax
  have hclamped : clampedMillis (observed data') [c] reading = now + d := by
    rw [clampedMillis_singleton, hreading, hobserved']
    omega
  rw [hclamped, hcheck, hagain]

end Bounded

/-! ## The stores -/

/-- A request leaves a shard alone: it is an admission of checks of other shards. -/
def StoreRequest.Avoids (request : StoreRequest P) (i : Fin config.shardCount) : Prop :=
  ∃ clock call, request = .tryAdmit clock call ∧ i ∉ touched config call.checks

section Store

variable {tryAdmit : Panics Duration → Request P → BoundedShards config E → Response × BoundedShards config E}
  {ok : StoreRequest P → Prop} {I : CounterKey → StoredEntry E → Prop} {Sound : BoundedShards config E → Prop}
  {shards : BoundedShards config E} {c : Check P} {reading : Duration} {decision : Decision}

/-- Requests that avoid a shard leave it as it is. -/
theorem final_untouched
    (hstep : ∀ request s, ok request → Sound s →
      StoreStep alg s request (performWith tryAdmit request s).1 (performWith tryAdmit request s).2 ∧
        Sound (performWith tryAdmit request s).2)
    (hs : Sound shards) {i : Fin config.shardCount} {between : List (StoreRequest P)}
    (hbetween : ∀ request ∈ between, ok request ∧ request.Avoids i) :
    Sound (Machine.final (performWith tryAdmit) shards between) ∧
      Machine.final (performWith tryAdmit) shards between i = shards i := by
  refine @Machine.final_inv _ _ _ _ (fun request => ok request ∧ request.Avoids i)
    (fun s => Sound s ∧ s i = shards i) ?_ shards ⟨hs, rfl⟩ between hbetween
  rintro request s ⟨hok, clock, call, rfl, havoids⟩ ⟨hsound, hsame⟩
  obtain ⟨hperformed, hsound'⟩ := hstep _ s hok hsound
  exact ⟨hsound', (hperformed.untouched havoids).trans hsame⟩

/-- What the bounded store promises, a store that performs its checks keeps. -/
theorem store_hintExact {times : ℕ → Prop} (hrecovers : alg.Recovers times c (I c.counterKey))
    (hstep : ∀ request s, ok request → Sound s →
      StoreStep alg s request (performWith tryAdmit request s).1 (performWith tryAdmit request s).2 ∧
        Sound (performWith tryAdmit request s).2)
    (hsound : ∀ s, Sound s → Bounded.Inv s.data ∧ Bounded.Stored I s.data)
    (hserves : ∀ s reading, Sound s → (s (c.shard config)).poisoned = false →
      tryAdmit (.ok reading) (.check c) s =
        ((Bounded.answer alg (clampedMillis s.observed [c] reading) (.check c) s.data).1,
          s.unlock (Bounded.answer alg (clampedMillis s.observed [c] reading) (.check c) s.data).2))
    (hpoisoned : (shards (c.shard config)).poisoned = false) (hs : Sound shards)
    (hrequest : ok (.tryAdmit (.ok reading) (.check c)))
    (htime : times (clampedMillis shards.observed [c] reading)) {between : List (StoreRequest P)}
    (hbetween : ∀ request ∈ between, ok request ∧ request.Avoids (c.shard config))
    (hdecision : (tryAdmit (.ok reading) (.check c) shards).1 = .check (.returned (.ok decision)))
    {kind : Refusal} {hint : Option Delay} (hrefused : decision.refusal = some (kind, hint)) :
    HintExact (fun d => times (clampedMillis shards.observed [c] reading + d)) kind hint fun d again =>
      ∀ later : Duration, later.asMillis = clampedMillis shards.observed [c] reading + d →
        (tryAdmit (.ok later) (.check c)
          (Machine.final (performWith tryAdmit) shards (.tryAdmit (.ok reading) (.check c) :: between))).1 =
          .check (.returned (.ok again)) := by
  obtain ⟨hinv, hstored⟩ := hsound shards hs
  have hfirst := hserves shards reading hs hpoisoned
  have hsecond : Sound (tryAdmit (.ok reading) (.check c) shards).2 := (hstep _ shards hrequest hs).2
  obtain ⟨hs', hshard⟩ := final_untouched hstep hsecond hbetween
  have hfinal : Machine.final (performWith tryAdmit) shards (.tryAdmit (.ok reading) (.check c) :: between) =
      Machine.final (performWith tryAdmit) (tryAdmit (.ok reading) (.check c) shards).2 between := rfl
  rw [hfinal]
  generalize Machine.final (performWith tryAdmit) (tryAdmit (.ok reading) (.check c) shards).2 between = shards'
    at hshard hs' ⊢
  rw [hfirst] at hshard hdecision
  have hpoisoned' : (shards' (c.shard config)).poisoned = false := by
    rw [hshard]
    exact hpoisoned
  set now := clampedMillis shards.observed [c] reading with hnow
  have hanswer : (Bounded.check alg now c shards.data).1 = .ok decision := by
    have hchecked : Response.check (.returned ((Bounded.check alg now c shards.data).1.mapError
        fun _ => .arithmeticOverflow)) = .check (.returned (.ok decision)) := hdecision
    cases hresult : (Bounded.check alg now c shards.data).1 with
    | error e =>
      rw [hresult] at hchecked
      cases hchecked
    | ok decision' =>
      rw [hresult] at hchecked
      cases hchecked
      rfl
  have hobserved : Bounded.observed shards.data (c.shard config) ≤ now :=
    le_clampedMillis (mem_touched.2 ⟨c, List.mem_singleton_self _, rfl⟩)
  have hmax : now ≤ maxMillis := by
    rw [hnow, clampedMillis_singleton]
    exact max_le reading.asMillis_le (hinv.shard _).observed_le
  -- nothing between the two checks has touched the shard
  have hdata : shards'.data (c.shard config) = (Bounded.check alg now c shards.data).2 (c.shard config) :=
    congrArg Mutex.data hshard
  refine (Bounded.check_hintExact hrecovers hinv (hsound shards' hs').1 hstored htime hmax hobserved hanswer
    hrefused hdata).mono ?_
  intro d again hagain later hlater
  have hlast : (Bounded.check alg (clampedMillis shards'.observed [c] later) c shards'.data).1 = .ok again :=
    hagain later hlater
  rw [hserves shards' later hs' hpoisoned']
  unfold Bounded.answer
  simp only [hlast]
  rfl

end Store

/-- An unpoisoned shard serves its checks as the bounded store does. -/
theorem MemoryStore.tryAdmit_check [Sha2] {known : Set FixedWindowPolicy} {shards : BoundedShards config WindowEntry}
    {c : Check FixedWindowPolicy} (hc : c.policy ∈ known) (reading : Duration) (hs : shards.Represents (Charged known))
    (hpoisoned : (shards (c.shard config)).poisoned = false) :
    MemoryStore.tryAdmit (.ok reading) (.check c) shards =
      ((Bounded.answer fixedWindow (clampedMillis shards.observed [c] reading) (.check c) shards.data).1,
        shards.unlock
          (Bounded.answer fixedWindow (clampedMillis shards.observed [c] reading) (.check c) shards.data).2) := by
  obtain ⟨decision, data, hbounded, hcheck⟩ := check_eq reading hs.inv
    (fun e he => (hs.stored _ _ e he).2.2 c.policy hc rfl) hpoisoned
  unfold tryAdmit Bounded.answer
  simp only [hbounded, hcheck]
  rfl

theorem GcraStore.tryAdmit_check [Sha2] {shards : BoundedShards config GcraEntry} {c : Check GcraPolicy}
    (reading : Duration) (hinv : Bounded.Inv shards.data) (hpoisoned : (shards (c.shard config)).poisoned = false) :
    GcraStore.tryAdmit (.ok reading) (.check c) shards =
      ((Bounded.answer gcra (clampedMillis shards.observed [c] reading) (.check c) shards.data).1,
        shards.unlock (Bounded.answer gcra (clampedMillis shards.observed [c] reading) (.check c) shards.data).2) := by
  obtain ⟨result, data, hbounded, hcheck⟩ := check_eq reading hinv hpoisoned
  unfold tryAdmit Bounded.answer
  simp only [hbounded, hcheck]

/-- A poisoned shard decides nothing. -/
theorem MemoryStore.unpoisoned_of_decided [Sha2] {shards : BoundedShards config WindowEntry}
    {c : Check FixedWindowPolicy} {clock : Panics Duration} {decision : Decision}
    (h : (MemoryStore.tryAdmit clock (.check c) shards).1 = .check (.returned (.ok decision))) :
    (shards (c.shard config)).poisoned = false := by
  rw [← Bool.not_eq_true]
  intro hpoisoned
  have hlock : shards.lockShard (config.shardIndex c.counterKey) = .error ⟨c.shard config⟩ := if_pos hpoisoned
  unfold tryAdmit check checkInner at h
  simp only [hlock] at h
  cases h

theorem GcraStore.unpoisoned_of_decided [Sha2] {shards : BoundedShards config GcraEntry}
    {c : Check GcraPolicy} {clock : Panics Duration} {decision : Decision}
    (h : (GcraStore.tryAdmit clock (.check c) shards).1 = .check (.returned (.ok decision))) :
    (shards (c.shard config)).poisoned = false := by
  rw [← Bool.not_eq_true]
  intro hpoisoned
  have hlock : shards.lockShard (config.shardIndex c.counterKey) = .error ⟨c.shard config⟩ := if_pos hpoisoned
  unfold tryAdmit check checkInner at h
  simp only [hlock] at h
  cases h

/-- **Retry hints are exact for single checks.** In every state a store reaches, a check that is refused at
the clamped time carries a hint of at least one millisecond; after any requests that avoid its
shard, the same check is refused in the same way until the hint has passed, with what is left of
it, and is allowed from then on. -/
theorem retry_hints_exact [Sha2] (config : MemoryStoreConfig) :
    (∀ (requests between : List (StoreRequest FixedWindowPolicy)) (reading : Duration) (c : Check FixedWindowPolicy)
      (decision : Decision) (kind : Refusal) (hint : Option Delay),
      Set.InjOn Sha2.sha256 (FixedWindowPolicy.preimage ''
        storePolicies (requests ++ .tryAdmit (.ok reading) (.check c) :: between)) →
      (∀ request ∈ between, request.Avoids (c.shard config)) →
      (MemoryStore.tryAdmit (.ok reading) (.check c) (MemoryStore.reached config requests)).1 =
        .check (.returned (.ok decision)) →
      decision.refusal = some (kind, hint) →
      HintExact (fun _ => True) kind hint fun d again => ∀ later : Duration,
        later.asMillis = clampedMillis (MemoryStore.reached config requests).observed [c] reading + d →
        (MemoryStore.tryAdmit (.ok later) (.check c)
          (MemoryStore.reached config (requests ++ .tryAdmit (.ok reading) (.check c) :: between))).1 =
          .check (.returned (.ok again))) ∧
    ∀ (requests between : List (StoreRequest GcraPolicy)) (reading : Duration) (c : Check GcraPolicy)
      (decision : Decision) (kind : Refusal) (hint : Option Delay),
      Set.InjOn Sha2.sha256 (GcraPolicy.preimage ''
        storePolicies (requests ++ .tryAdmit (.ok reading) (.check c) :: between)) →
      (∀ request ∈ requests ++ .tryAdmit (.ok reading) (.check c) :: between, GcraStore.InTime request) →
      (∀ request ∈ between, request.Avoids (c.shard config)) →
      (GcraStore.tryAdmit (.ok reading) (.check c) (GcraStore.reached config requests)).1 =
        .check (.returned (.ok decision)) →
      decision.refusal = some (kind, hint) →
      HintExact (fun d => clampedMillis (GcraStore.reached config requests).observed [c] reading + d < 2 ^ 64)
        kind hint fun d again => ∀ later : Duration,
        later.asMillis = clampedMillis (GcraStore.reached config requests).observed [c] reading + d →
        (GcraStore.tryAdmit (.ok later) (.check c)
          (GcraStore.reached config (requests ++ .tryAdmit (.ok reading) (.check c) :: between))).1 =
          .check (.returned (.ok again)) := by
  refine ⟨?_, ?_⟩
  · intro requests between reading c decision kind hint hfree havoids hdecision hrefused
    set known := storePolicies (requests ++ .tryAdmit (.ok reading) (.check c) :: between) with hknown
    have hpolicies : ∀ request ∈ requests ++ .tryAdmit (.ok reading) (.check c) :: between,
        ∀ c ∈ request.checks, c.policy ∈ known := fun request hrequest c hc => ⟨request, hrequest, c, hc, rfl⟩
    have hc : c.policy ∈ known := hpolicies _ (List.mem_append_right _ List.mem_cons_self) c List.mem_cons_self
    have hrepresents : (MemoryStore.reached config requests).Represents (MemoryStore.Charged known) :=
      MemoryStore.reached_represents hfree fun p ⟨request, hrequest, c, hc, hp⟩ =>
        ⟨request, List.mem_append_left _ hrequest, c, hc, hp⟩
    unfold MemoryStore.reached
    rw [Machine.final_append]
    exact store_hintExact (fixedWindow_recovers c)
      (fun request s hok hs => (MemoryStore.perform_represents hfree hs request hok))
      (fun s hs => ⟨hs.inv, fun _ _ _ _ => trivial⟩)
      (fun s reading hs hpoisoned => MemoryStore.tryAdmit_check hc reading hs hpoisoned)
      (MemoryStore.unpoisoned_of_decided hdecision) hrepresents
      (hpolicies _ (List.mem_append_right _ List.mem_cons_self)) trivial
      (fun request hrequest => ⟨hpolicies request (List.mem_append_right _ (List.mem_cons_of_mem _ hrequest)),
        havoids request hrequest⟩) hdecision hrefused
  · intro requests between reading c decision kind hint hfree htime havoids hdecision hrefused
    set known := storePolicies (requests ++ .tryAdmit (.ok reading) (.check c) :: between) with hknown
    have hok : ∀ request ∈ requests ++ .tryAdmit (.ok reading) (.check c) :: between,
        (∀ c ∈ request.checks, c.policy ∈ known) ∧ GcraStore.InTime request :=
      fun request hrequest => ⟨fun c hc => ⟨request, hrequest, c, hc, rfl⟩, htime request hrequest⟩
    have hrequest := hok _ (List.mem_append_right _ List.mem_cons_self)
    have hsupported : GcraStore.Supported known (GcraStore.reached config requests) :=
      Machine.final_inv (fun request s hrequest hs => (GcraStore.perform_supported hfree request s hrequest hs).2)
        GcraStore.Supported.new fun request hrequest => hok request (List.mem_append_left _ hrequest)
    unfold GcraStore.reached
    rw [Machine.final_append]
    exact store_hintExact (gcra_recovers (hrequest.1 c List.mem_cons_self))
      (fun request s hok hs => ⟨GcraStore.perform_step hs.represents.inv request,
        (GcraStore.perform_supported hfree request s hok hs).2⟩)
      (fun s hs => ⟨hs.represents.inv, hs.represents.stored⟩)
      (fun s reading hs hpoisoned => GcraStore.tryAdmit_check reading hs.represents.inv hpoisoned)
      (GcraStore.unpoisoned_of_decided hdecision) hsupported hrequest
      (clampedMillis_lt (hrequest.2 reading _ rfl) hsupported.observed_lt)
      (fun request hrequest => ⟨hok request (List.mem_append_right _ (List.mem_cons_of_mem _ hrequest)),
        havoids request hrequest⟩) hdecision hrefused

/-- A check of the login policy that takes its whole limit. -/
def wholeLogin : letI := vectorSha2; Check FixedWindowPolicy :=
  letI := vectorSha2
  ⟨loginPolicy, Digest.replicate 1, 8, loginPolicy.limit.pos, by decide⟩

/-- A read at a cost of ten, half the burst. -/
def halfBurst : letI := vectorSha2; Check GcraPolicy :=
  letI := vectorSha2
  ⟨readPolicy, Digest.replicate 1, 10, readPolicy.quota.pos, by decide⟩

/-- A login that is refused until its window closes, and a read that is refused until a second of quota has
come back. -/
theorem retry_hints_exact_login :
    letI := vectorSha2
    (HintExact (fun _ => True) .quota (some ⟨Duration.fromMillis 59995⟩) fun d again => ∀ later : Duration,
      later.asMillis = 10 + d →
      (MemoryStore.tryAdmit (.ok later) (.check wholeLogin) (MemoryStore.reached tinyConfig
        ([.tryAdmit (.ok (Duration.fromMillis 5)) (.check wholeLogin)] ++
          [.tryAdmit (.ok (Duration.fromMillis 10)) (.check wholeLogin)]))).1 = .check (.returned (.ok again))) ∧
    HintExact (fun d => 10 + d < 2 ^ 64) .quota (some ⟨Duration.fromMillis 995⟩) fun d again => ∀ later : Duration,
      later.asMillis = 10 + d →
      (GcraStore.tryAdmit (.ok later) (.check halfBurst) (GcraStore.reached tinyConfig
        ([.tryAdmit (.ok (Duration.fromMillis 5)) (.check halfBurst),
          .tryAdmit (.ok (Duration.fromMillis 5)) (.check halfBurst)] ++
          [.tryAdmit (.ok (Duration.fromMillis 10)) (.check halfBurst)]))).1 = .check (.returned (.ok again)) := by
  let := vectorSha2
  refine ⟨?_, ?_⟩
  · have hclamped : clampedMillis (MemoryStore.reached tinyConfig
        [.tryAdmit (.ok (Duration.fromMillis 5)) (.check wholeLogin)]).observed [wholeLogin]
          (Duration.fromMillis 10) = 10 := by decide +kernel
    have hexact := (retry_hints_exact tinyConfig).1 [.tryAdmit (.ok (Duration.fromMillis 5)) (.check wholeLogin)] []
      (Duration.fromMillis 10) wholeLogin
      (.denied (.quotaExceeded (QuotaDenial.new loginPolicy.limit (Duration.fromMillis 59995)))) .quota
      (some ⟨Duration.fromMillis 59995⟩)
    rw [hclamped] at hexact
    refine hexact ?_ (fun _ h => by cases h) ?_ rfl
    · refine vector_fixedWindow_injOn.mono (Set.image_mono ?_)
      rintro p ⟨request, hrequest, c, hc, rfl⟩
      rcases List.mem_pair.1 hrequest with rfl | rfl
      · rw [List.mem_singleton.1 hc]
        exact Or.inl rfl
      · rw [List.mem_singleton.1 hc]
        exact Or.inl rfl
    · have hrefused : (MemoryStore.check (.ok (Duration.fromMillis 10)) wholeLogin (MemoryStore.reached tinyConfig
          [.tryAdmit (.ok (Duration.fromMillis 5)) (.check wholeLogin)])).1 = .returned (.ok
            (.denied (.quotaExceeded (QuotaDenial.new loginPolicy.limit (Duration.fromMillis 59995))))) := by
        decide +kernel
      unfold MemoryStore.tryAdmit
      simp only [hrefused]
      rfl
  · have hclamped : clampedMillis (GcraStore.reached tinyConfig
        [.tryAdmit (.ok (Duration.fromMillis 5)) (.check halfBurst),
          .tryAdmit (.ok (Duration.fromMillis 5)) (.check halfBurst)]).observed [halfBurst]
          (Duration.fromMillis 10) = 10 := by decide +kernel
    have hexact := (retry_hints_exact tinyConfig).2 [.tryAdmit (.ok (Duration.fromMillis 5)) (.check halfBurst),
        .tryAdmit (.ok (Duration.fromMillis 5)) (.check halfBurst)] [] (Duration.fromMillis 10) halfBurst
      (.denied (.quotaExceeded (QuotaDenial.new readPolicy.burstCapacity (Duration.fromMillis 995)))) .quota
      (some ⟨Duration.fromMillis 995⟩)
    rw [hclamped] at hexact
    refine hexact ?_ ?_ (fun _ h => by cases h) ?_ rfl
    · refine vector_gcra_injOn.mono (Set.image_mono ?_)
      rintro p ⟨request, hrequest, c, hc, rfl⟩
      simp only [List.cons_append, List.nil_append, List.mem_cons, List.not_mem_nil, or_false] at hrequest
      rcases hrequest with rfl | rfl | rfl
      all_goals
        rw [List.mem_singleton.1 hc]
        exact Or.inl rfl
    · intro request hrequest reading call hcall
      simp only [List.cons_append, List.nil_append, List.mem_cons, List.not_mem_nil, or_false] at hrequest
      rcases hrequest with rfl | rfl | rfl
      all_goals
        cases hcall
        decide
    · have hrefused : (GcraStore.check (.ok (Duration.fromMillis 10)) halfBurst (GcraStore.reached tinyConfig
          [.tryAdmit (.ok (Duration.fromMillis 5)) (.check halfBurst),
            .tryAdmit (.ok (Duration.fromMillis 5)) (.check halfBurst)])).1 = .returned (.ok
            (.denied (.quotaExceeded (QuotaDenial.new readPolicy.burstCapacity (Duration.fromMillis 995))))) := by
        decide +kernel
      unfold GcraStore.tryAdmit
      simp only [hrefused]

end Runlimit
