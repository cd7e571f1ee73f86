import Runlimit.Spec.AttemptRun
import Runlimit.Proof.Prim

/-!
# What a call does to the entry of one key

`serve_attemptStep` says, for one call of a limiter, everything that can happen to the entry of
a key: `cleanup` may remove it in passing; an admission of the key reconciles it and then denies,
fails or leases it; a completion of the key is applied or stale. It is stated once, and the
results about fencing, backoff and the eager machine are inductions over its cases.
-/

namespace Runlimit

/-- What `cleanup` may do to an entry. -/
def Cleaned (now : Duration) (before after : Option AttemptEntry) : Prop :=
  after = before ∨ ∃ entry, before = some entry ∧ entry.removable now = true ∧ after = none

/-- The lease of an entry is the one the receipt stands for, and has not run out. -/
def AttemptEntry.Holds (entry : AttemptEntry) (receipt : MemoryAttemptReceipt) (now : Duration) : Prop :=
  ∃ deadline, entry.lease = some (receipt.generation, deadline) ∧ now < deadline

/-! ## Cleanup -/

theorem Cleaned.none_eq {now : Duration} {after : Option AttemptEntry} (h : Cleaned now none after) :
    after = none := by
  rcases h with h | ⟨entry, h, -⟩
  · exact h
  · cases h

/-- What the removal of examined entries does to any key. -/
theorem removeQuiet_cleaned (now : Duration) (key : AttemptKey) :
    ∀ (keys : List AttemptKey) (entries : Table AttemptKey AttemptEntry),
    Cleaned now (entries.lookup key) ((AttemptState.removeQuiet now keys entries).lookup key) := by
  intro keys
  induction keys with
  | nil => intro entries; exact Or.inl rfl
  | cons k keys ih =>
    intro entries
    unfold AttemptState.removeQuiet
    cases hk : entries.lookup k with
    | none => exact ih entries
    | some entry =>
      simp only
      split
      · rename_i hremovable
        have hrest := ih (entries.erase k)
        rw [Finmap.lookup_erase_if] at hrest
        -- the key itself was removed, or its entry is still to be looked at
        by_cases hkey : key = k
        · rw [if_pos hkey] at hrest
          subst hkey
          exact Or.inr ⟨entry, hk, hremovable, hrest.none_eq⟩
        · rw [if_neg hkey] at hrest
          exact hrest
      · exact ih entries

/-- And so `cleanup`. -/
theorem cleanup_cleaned (state : AttemptState) (now : Duration) (key : AttemptKey) :
    Cleaned now (state.entries.lookup key) ((state.cleanup now).entries.lookup key) :=
  removeQuiet_cleaned now key _ _

/-! ## Completions -/

/-- A failure is always followed by a delay. -/
theorem AttemptPolicy.delay_ne_zero (policy : AttemptPolicy) {failures : ℕ} (h : failures ≠ 0) :
    (policy.delay failures).nanos ≠ 0 := by
  have hinitial := policy.initialDelay.pos
  have hmaximum := policy.maximumDelay.pos
  have hshift : 0 < (checkedShlOne (failures - 1)).getD u64Max := by
    unfold checkedShlOne
    split
    · exact Nat.two_pow_pos _
    · decide
  have hproduct := Nat.mul_pos hinitial hshift
  have hmillis : 0 < min (min (policy.initialDelay.millis * (checkedShlOne (failures - 1)).getD u64Max) u64Max)
      policy.maximumDelay.millis := by
    refine lt_min (lt_min hproduct (by decide)) hmaximum
  have hmax : 0 < maxNanos := by decide
  unfold AttemptPolicy.delay
  rw [if_neg h]
  unfold Duration.fromMillis
  simp only
  omega

/-- The metadata of a failure is consistent. -/
theorem completion_failure {outcome : AttemptOutcome} (houtcome : outcome ≠ .success) {failures : ℕ}
    (hfailures : failures ≠ 0) (policy : AttemptPolicy) :
    ∃ done, completion outcome failures (policy.delay failures) = .ok done ∧ done.outcome = outcome ∧
      done.consecutiveFailures = failures ∧ done.retryAfter = ⟨policy.delay failures⟩ := by
  have hvalid : outcome.consistent failures ⟨policy.delay failures⟩ = true := by
    have hdelay := policy.delay_ne_zero hfailures
    cases outcome with
    | success => exact absurd rfl houtcome
    | failure => simp [AttemptOutcome.consistent, Nat.pos_of_ne_zero hfailures, hdelay]
    | abandoned => simp [AttemptOutcome.consistent, Nat.pos_of_ne_zero hfailures, hdelay]
  refine ⟨⟨outcome, failures, ⟨policy.delay failures⟩, hvalid⟩, ?_, rfl, rfl, rfl⟩
  unfold completion AttemptCompletion.new
  rw [dif_pos hvalid]
  rfl

/-- The lease test of `complete`. -/
theorem holds_iff {entry : AttemptEntry} {receipt : MemoryAttemptReceipt} {now : Duration} :
    (entry.lease.any fun (generation, deadline) =>
      decide (generation = receipt.generation) && decide (now < deadline)) = true ↔
    entry.Holds receipt now := by
  unfold AttemptEntry.Holds
  cases entry.lease with
  | none => simp
  | some lease =>
    obtain ⟨generation, deadline⟩ := lease
    simp [Option.any_some]

namespace MemoryAttemptLimiter

variable {store : StoreId} {reading : Duration} {state : AttemptState}

/-- A completion by the receipt of the live lease succeeds. -/
theorem completeLocked_success {receipt : MemoryAttemptReceipt} {entry : AttemptEntry}
    (hstore : receipt.store = store) (hentry : state.entries.lookup receipt.key = some entry)
    (hholds : entry.Holds receipt (max state.now reading)) :
    completeLocked store reading receipt .success state =
      .ok (.applied ⟨.success, 0, ⟨Duration.zero⟩, rfl⟩,
        { state with now := max state.now reading, entries := state.entries.erase receipt.key }) := by
  have hlive := holds_iff.2 hholds
  unfold completeLocked
  simp only [hentry, hstore, decide_true, Bool.true_and]
  rw [if_pos hlive]
  rfl

/-- A failure by the receipt of the live lease is recorded. -/
theorem completeLocked_failure {receipt : MemoryAttemptReceipt} {outcome : AttemptOutcome}
    {entry : AttemptEntry} (houtcome : outcome ≠ .success) (hstore : receipt.store = store)
    (hentry : state.entries.lookup receipt.key = some entry)
    (hholds : entry.Holds receipt (max state.now reading)) :
    ∃ done, completeLocked store reading receipt outcome state =
        .ok (.applied done, { state with
          now := max state.now reading
          entries := state.entries.insert receipt.key
            ({ entry with lease := none }.fail (max state.now reading)) }) ∧
      done.outcome = outcome ∧ done.consecutiveFailures = min (entry.failures + 1) u32Max ∧
      done.retryAfter = ⟨entry.policy.delay (min (entry.failures + 1) u32Max)⟩ := by
  have hlive := holds_iff.2 hholds
  have hne : min (entry.failures + 1) u32Max ≠ 0 := by
    unfold u32Max
    omega
  obtain ⟨done, hdone, h⟩ := completion_failure houtcome hne entry.policy
  refine ⟨done, ?_, h⟩
  unfold completeLocked
  simp only [hentry, hstore, decide_true, Bool.true_and]
  rw [if_pos hlive, if_neg houtcome]
  change (completion outcome (min (entry.failures + 1) u32Max)
    (entry.policy.delay (min (entry.failures + 1) u32Max)) >>= _) = _
  rw [hdone]
  rfl

/-- Any other completion changes nothing but the clock. -/
theorem completeLocked_stale {receipt : MemoryAttemptReceipt} (outcome : AttemptOutcome)
    (hnot : receipt.store = store → ∀ entry, state.entries.lookup receipt.key = some entry →
      ¬ entry.Holds receipt (max state.now reading)) :
    completeLocked store reading receipt outcome state =
      .ok (.stale, { state with now := max state.now reading }) := by
  unfold completeLocked
  cases hentry : state.entries.lookup receipt.key with
  | none =>
    simp only [hentry]
    rfl
  | some entry =>
    simp only [hentry]
    rw [if_neg]
    · rfl
    · -- a live lease of the receipt in its own store is excluded
      intro hlive
      rw [Bool.and_eq_true, decide_eq_true_eq] at hlive
      exact hnot hlive.1 entry hentry (holds_iff.1 hlive.2)

/-- **What a completion does.** It never unwinds: either the entry of its key holds its receipt,
and then the outcome is applied, or it is stale, and then only the clock is changed. -/
theorem completeLocked_cases (store : StoreId) (reading : Duration) (receipt : MemoryAttemptReceipt)
    (outcome : AttemptOutcome) (state : AttemptState) :
    (receipt.store = store ∧ ∃ entry, state.entries.lookup receipt.key = some entry ∧
      entry.Holds receipt (max state.now reading)) ∨
    ((receipt.store = store → ∀ entry, state.entries.lookup receipt.key = some entry →
        ¬ entry.Holds receipt (max state.now reading)) ∧
      completeLocked store reading receipt outcome state =
        .ok (.stale, { state with now := max state.now reading })) := by
  by_cases h : receipt.store = store ∧ ∃ entry, state.entries.lookup receipt.key = some entry ∧
      entry.Holds receipt (max state.now reading)
  · exact Or.inl h
  · have hnot : receipt.store = store → ∀ entry, state.entries.lookup receipt.key = some entry →
        ¬ entry.Holds receipt (max state.now reading) :=
      fun hstore entry hentry hholds => h ⟨hstore, entry, hentry, hholds⟩
    exact Or.inr ⟨hnot, completeLocked_stale outcome hnot⟩

/-! ## Admissions -/

/-- The state after the clock was read and `cleanup` was run. -/
def swept (reading : Duration) (state : AttemptState) : AttemptState :=
  { state with now := max state.now reading }.cleanup (max state.now reading)

/-- What the sweep of an admission does to any key. -/
theorem swept_cleaned (reading : Duration) (state : AttemptState) (key : AttemptKey) :
    Cleaned (max state.now reading) (state.entries.lookup key) ((swept reading state).entries.lookup key) :=
  cleanup_cleaned { state with now := max state.now reading } (max state.now reading) key

/-- What an admission does to the entries of other keys. -/
theorem admitLocked_other {capacity : ℕ} {policy : AttemptPolicy} {key other : AttemptKey} (h : key ≠ other) :
    Cleaned (max state.now reading) (state.entries.lookup other)
      ((admitLocked capacity store reading policy key state).2.entries.lookup other) := by
  have hinsert : ∀ (entries : Table AttemptKey AttemptEntry) (entry : AttemptEntry),
      (entries.insert key entry).lookup other = entries.lookup other := by
    intro entries entry
    rw [Finmap.lookup_insert_if, if_neg (Ne.symm h)]
  -- a lease is written under the key of the admission only
  have hreserve : ∀ s : AttemptState,
      (reserve store (max state.now reading) policy key s).2.entries.lookup other = s.entries.lookup other := by
    intro s
    unfold reserve
    split
    · rfl
    · exact hinsert _ _
  have hswept := swept_cleaned reading state other
  unfold admitLocked
  simp only
  -- what the cleanup leaves is what the rest of the admission works on
  rw [show AttemptState.cleanup { state with now := max state.now reading } (max state.now reading) =
    swept reading state from rfl]
  split
  · split
    · rw [hinsert]
      exact hswept
    · rw [hreserve, hinsert]
      exact hswept
  · split
    · exact hswept
    · rw [hreserve]
      exact hswept

/-- The second half of an admission fails, or leases the entry. -/
theorem reserve_cases {now : Duration} {policy : AttemptPolicy} {key : AttemptKey} {s s' : AttemptState}
    {result : Except MemoryAttemptError (AttemptAdmission MemoryAttemptReceipt)}
    (h : reserve store now policy key s = (result, s')) :
    (result = .error .sequenceExhausted ∧ s' = s) ∨
      ∃ leased, leased = (s.entries.lookup key).getD ⟨policy, 0, now, now, none⟩ ∧
        result = .ok (.admitted ⟨store, key, s.generation + 1⟩) ∧ s'.now = s.now ∧
        s'.generation = s.generation + 1 ∧
        s'.entries.lookup key = some { leased with
          lease := some (s.generation + 1, now.saturatingAdd leased.policy.lease.duration) } := by
  unfold reserve at h
  split at h
  · cases h
    exact Or.inl ⟨rfl, rfl⟩
  · cases h
    refine Or.inr ⟨_, rfl, rfl, rfl, rfl, ?_⟩
    rw [Finmap.lookup_insert]

/-- What an admission does to the entry of its key. -/
theorem admitLocked_cases (capacity : ℕ) (store : StoreId) (reading : Duration) (policy : AttemptPolicy)
    (key : AttemptKey) (state : AttemptState) {now : Duration} (hnow : now = max state.now reading)
    {entry : Option AttemptEntry} (hentry : entry = (swept reading state).entries.lookup key)
    {result : Except MemoryAttemptError (AttemptAdmission MemoryAttemptReceipt)} {state' : AttemptState}
    (h : admitLocked capacity store reading policy key state = (result, state')) :
    state'.now = now ∧
    ((result = .ok (.denied .storageCapacity) ∧ entry = none ∧ state'.entries.lookup key = none ∧
        state'.generation = state.generation) ∨
      (∃ e denial, result = .ok (.denied denial) ∧ entry = some e ∧
        (e.reconcile now).deny now = some denial ∧ state'.entries.lookup key = some (e.reconcile now) ∧
        state'.generation = state.generation) ∨
      ((∀ e ∈ entry, (e.reconcile now).deny now = none) ∧
        ((result = .error .sequenceExhausted ∧ state'.entries.lookup key = entry.map (·.reconcile now) ∧
            state'.generation = state.generation) ∨
          (∃ leased, leased = (entry.map (·.reconcile now)).getD ⟨policy, 0, now, now, none⟩ ∧
            result = .ok (.admitted ⟨store, key, state.generation + 1⟩) ∧
            state'.entries.lookup key = some { leased with
              lease := some (state.generation + 1, now.saturatingAdd leased.policy.lease.duration) } ∧
            state'.generation = state.generation + 1)))) := by
  have hswept : swept reading state = AttemptState.cleanup { state with now } now := by
    unfold swept
    rw [← hnow]
  rw [hswept] at hentry
  unfold admitLocked at h
  simp only [← hnow] at h
  split at h
  · rename_i e hlookup
    rw [hlookup] at hentry
    subst hentry
    split at h
    · rename_i denial hdeny
      cases h
      refine ⟨rfl, Or.inr (Or.inl ⟨e, denial, rfl, rfl, hdeny, ?_, rfl⟩)⟩
      rw [Finmap.lookup_insert]
    · rename_i hdeny
      -- nothing denies: the reconciled entry is leased, or there is no generation left
      have hnone : ∀ e' ∈ some e, (e'.reconcile now).deny now = none := by
        intro e' he'
        rw [Option.mem_some] at he'
        exact he' ▸ hdeny
      rcases reserve_cases h with ⟨hresult, rfl⟩ | ⟨leased, hleased, hresult, hn, hg, hl⟩
      · refine ⟨rfl, Or.inr (Or.inr ⟨hnone, Or.inl ⟨hresult, ?_, rfl⟩⟩)⟩
        simp only [Finmap.lookup_insert, Option.map_some]
      · simp only [Finmap.lookup_insert] at hleased
        exact ⟨hn, Or.inr (Or.inr ⟨hnone, Or.inr ⟨leased, hleased, hresult, hl, hg⟩⟩)⟩
  · rename_i hlookup
    rw [hlookup] at hentry
    subst hentry
    split at h
    · cases h
      -- a new key and no room for it
      exact ⟨rfl, Or.inl ⟨rfl, rfl, hlookup, rfl⟩⟩
    · have hnone : ∀ e' ∈ (none : Option AttemptEntry), (e'.reconcile now).deny now = none := by
        intro e' he'
        cases he'
      rcases reserve_cases h with ⟨hresult, rfl⟩ | ⟨leased, hleased, hresult, hn, hg, hl⟩
      · exact ⟨rfl, Or.inr (Or.inr ⟨hnone, Or.inl ⟨hresult, hlookup, rfl⟩⟩)⟩
      · rw [hlookup] at hleased
        exact ⟨hn, Or.inr (Or.inr ⟨hnone, Or.inr ⟨leased, hleased, hresult, hl, hg⟩⟩)⟩

end MemoryAttemptLimiter

/-! ## The step of a limiter -/

variable [Sha2]

/-- The effect of an event on a key, from the state before to the state after. -/
inductive AttemptStep (store : StoreId) (key : AttemptKey) (event : AttemptEvent) (s s' : AttemptState) :
    Prop where
  /-- The call was about another key. -/
  | other (hkey : event.request.key ≠ key)
      (hentry : Cleaned event.now (s.entries.lookup key) (s'.entries.lookup key))
  /-- The key has no entry, and there is no room for one. -/
  | full (subject : AttemptSubject) (hrequest : event.request = .tryAdmit subject) (hkey : subject.key = key)
      (hresponse : event.response = .tryAdmit (.returned (.ok (.denied .storageCapacity))))
      (hentry : Cleaned event.now (s.entries.lookup key) none) (hentry' : s'.entries.lookup key = none)
  /-- The reconciled entry denies the admission. -/
  | denied (subject : AttemptSubject) (hrequest : event.request = .tryAdmit subject) (hkey : subject.key = key)
      (entry : AttemptEntry) (denial : AttemptDenial)
      (hresponse : event.response = .tryAdmit (.returned (.ok (.denied denial))))
      (hentry : s.entries.lookup key = some entry)
      (hdeny : (entry.reconcile event.now).deny event.now = some denial)
      (hentry' : s'.entries.lookup key = some (entry.reconcile event.now))
  /-- The admission would be granted, but there is no receipt left for it. -/
  | exhausted (subject : AttemptSubject) (hrequest : event.request = .tryAdmit subject)
      (hkey : subject.key = key)
      (hresponse : event.response = .tryAdmit (.returned (.error .sequenceExhausted)))
      (entry : Option AttemptEntry) (hentry : Cleaned event.now (s.entries.lookup key) entry)
      (hdeny : ∀ e ∈ entry, (e.reconcile event.now).deny event.now = none)
      (hentry' : s'.entries.lookup key = entry.map (·.reconcile event.now))
  /-- The admission is granted. -/
  | admitted (subject : AttemptSubject) (hrequest : event.request = .tryAdmit subject)
      (hkey : subject.key = key) (entry : Option AttemptEntry)
      (hresponse : event.response =
        .tryAdmit (.returned (.ok (.admitted ⟨store, key, s.generation + 1⟩))))
      (hentry : Cleaned event.now (s.entries.lookup key) entry)
      (hdeny : ∀ e ∈ entry, (e.reconcile event.now).deny event.now = none)
      (leased : AttemptEntry)
      (hleased : leased = (entry.map (·.reconcile event.now)).getD
        ⟨subject.policy, 0, event.now, event.now, none⟩)
      (hentry' : s'.entries.lookup key = some { leased with
        lease := some (s.generation + 1, event.now.saturatingAdd leased.policy.lease.duration) })
  /-- The completion is applied. -/
  | applied (receipt : MemoryAttemptReceipt) (outcome : AttemptOutcome)
      (hrequest : event.request = .complete receipt outcome) (hkey : receipt.key = key)
      (hstore : receipt.store = store) (entry : AttemptEntry) (hentry : s.entries.lookup key = some entry)
      (hholds : entry.Holds receipt event.now) (done : AttemptCompletion)
      (hresponse : event.response = .complete (.returned (.ok (.applied done))))
      (houtcome : done.outcome = outcome)
      (hdone : outcome = .success ∧ done.consecutiveFailures = 0 ∧ done.retryAfter = ⟨Duration.zero⟩ ∧
          s'.entries.lookup key = none ∨
        outcome ≠ .success ∧ done.consecutiveFailures = min (entry.failures + 1) u32Max ∧
          done.retryAfter = ⟨entry.policy.delay (min (entry.failures + 1) u32Max)⟩ ∧
          s'.entries.lookup key = some ({ entry with lease := none }.fail event.now))
  /-- The completion is stale. -/
  | stale (receipt : MemoryAttemptReceipt) (outcome : AttemptOutcome)
      (hrequest : event.request = .complete receipt outcome) (hkey : receipt.key = key)
      (hresponse : event.response = .complete (.returned (.ok .stale)))
      (hnot : receipt.store = store → ∀ entry, s.entries.lookup key = some entry →
        ¬ entry.Holds receipt event.now)
      (hentry' : s'.entries.lookup key = s.entries.lookup key)

omit [Sha2] in
/-- Reconciling an entry keeps its policy. -/
theorem reconcile_policy (entry : AttemptEntry) (now : Duration) :
    (entry.reconcile now).policy = entry.policy := by
  have hexpire : (entry.expireLease now).policy = entry.policy := by
    unfold AttemptEntry.expireLease
    split
    · split
      · rfl
      · rfl
    · rfl
  unfold AttemptEntry.reconcile AttemptEntry.forgetFailures
  split
  · exact hexpire
  · exact hexpire

/-- The policy of an entry is the one it had, or that of the subject it was created for. -/
theorem AttemptStep.policy_eq {store : StoreId} {key : AttemptKey} {event : AttemptEvent}
    {s s' : AttemptState} (h : AttemptStep store key event s s') {entry' : AttemptEntry}
    (hentry' : s'.entries.lookup key = some entry') :
    (∃ entry, s.entries.lookup key = some entry ∧ entry'.policy = entry.policy) ∨
      ∃ subject, event.request = .tryAdmit subject ∧ subject.key = key ∧ entry'.policy = subject.policy := by
  -- a cleanup changes no entry that it leaves
  have hkept : ∀ {now : Duration} {entry : AttemptEntry},
      Cleaned now (s.entries.lookup key) (some entry) → s.entries.lookup key = some entry := by
    intro now entry h
    rcases h with h | ⟨-, -, -, h⟩
    · exact h.symm
    · cases h
  cases h with
  | other hkey hentry =>
    rw [hentry'] at hentry
    exact Or.inl ⟨entry', hkept hentry, rfl⟩
  | full subject hrequest hkey hresponse hentry hnone =>
    rw [hnone] at hentry'
    cases hentry'
  | denied subject hrequest hkey entry denial hresponse hentry hdeny hafter =>
    rw [hafter] at hentry'
    cases hentry'
    exact Or.inl ⟨entry, hentry, reconcile_policy entry _⟩
  | exhausted subject hrequest hkey hresponse entry hentry hdeny hafter =>
    rw [hafter] at hentry'
    obtain ⟨e, rfl, rfl⟩ := Option.map_eq_some_iff.1 hentry'
    exact Or.inl ⟨e, hkept hentry, reconcile_policy e _⟩
  | admitted subject hrequest hkey entry hresponse hentry hdeny leased hleased hafter =>
    rw [hafter] at hentry'
    cases hentry'
    cases entry with
    | none => exact Or.inr ⟨subject, hrequest, hkey, by rw [hleased]; rfl⟩
    | some e =>
      refine Or.inl ⟨e, hkept hentry, ?_⟩
      rw [hleased]
      exact reconcile_policy e _
  | applied receipt outcome hrequest hkey hstore entry hentry hholds done hresponse houtcome hdone =>
    rcases hdone with ⟨-, -, -, hafter⟩ | ⟨-, -, -, hafter⟩
    · rw [hafter] at hentry'
      cases hentry'
    · rw [hafter] at hentry'
      cases hentry'
      exact Or.inl ⟨entry, hentry, rfl⟩
  | stale receipt outcome hrequest hkey hresponse hnot hafter =>
    rw [hafter] at hentry'
    exact Or.inl ⟨entry', hentry', rfl⟩

namespace MemoryAttemptLimiter

/-- What every call does to the whole limiter. -/
structure Served (event : AttemptEvent) (s s' : Mutex AttemptState) : Prop where
  unpoisoned : s'.poisoned = false
  now_eq : s'.data.now = event.now
  now_le : s.data.now ≤ event.now
  /-- An admission takes the next generation. -/
  generation_eq : s'.data.generation = s.data.generation + if event.response.receipt.isSome then 1 else 0

/-- A completion, served. -/
theorem serve_complete {capacity : ℕ} {store : StoreId} {reading : Duration} {receipt : MemoryAttemptReceipt}
    {outcome : AttemptOutcome} {data : AttemptState} {result : AttemptCompletionResult} {data' : AttemptState}
    (h : completeLocked store reading receipt outcome data = .ok (result, data')) :
    serve capacity store ⟨reading, .complete receipt outcome⟩ ⟨data, false⟩ =
      (⟨max data.now reading, .complete receipt outcome, .complete (.returned (.ok result))⟩,
        ⟨data', false⟩) := by
  have hcall : complete store (.ok reading) receipt outcome ⟨data, false⟩ =
      (.returned (.ok result), ⟨data', false⟩) := by
    unfold complete
    rw [except_ok_bind]
    simp only [h]
    rfl
  unfold serve answer
  simp only [hcall]

/-- An admission, served. -/
theorem serve_tryAdmit {capacity : ℕ} {store : StoreId} {reading : Duration} {subject : AttemptSubject}
    {data data' : AttemptState} {result : Except MemoryAttemptError (AttemptAdmission MemoryAttemptReceipt)}
    (h : admitLocked capacity store reading subject.policy subject.key data = (result, data')) :
    serve capacity store ⟨reading, .tryAdmit subject⟩ ⟨data, false⟩ =
      (⟨max data.now reading, .tryAdmit subject, .tryAdmit (.returned result)⟩, ⟨data', false⟩) := by
  have hanswer : answer capacity store ⟨reading, .tryAdmit subject⟩ ⟨data, false⟩ =
      (.tryAdmit (.returned (admitLocked capacity store reading subject.policy subject.key data).1),
        ⟨(admitLocked capacity store reading subject.policy subject.key data).2, false⟩) := rfl
  unfold serve
  rw [hanswer, h]

/-- **One call, one key.** -/
theorem serve_attemptStep {capacity : ℕ} {store : StoreId} {call : AttemptCall} {s s' : Mutex AttemptState}
    {event : AttemptEvent} (hs : s.poisoned = false) (h : serve capacity store call s = (event, s')) :
    Served event s s' ∧ ∀ key, AttemptStep store key event s.data s'.data := by
  obtain ⟨reading, request⟩ := call
  obtain ⟨data, poisoned⟩ := s
  simp only at hs
  subst hs
  cases request with
  | tryAdmit subject =>
    cases hgrant : admitLocked capacity store reading subject.policy subject.key data with
    | mk result data' =>
    rw [serve_tryAdmit hgrant] at h
    cases h
    obtain ⟨hnow, hcases⟩ := admitLocked_cases capacity store reading subject.policy subject.key data rfl rfl
      hgrant
    have hle : data.now ≤ max data.now reading := le_max_left _ _
    have hcleaned := swept_cleaned reading data subject.key
    refine ⟨?_, ?_⟩
    · refine ⟨rfl, hnow, hle, ?_⟩
      rcases hcases with ⟨rfl, -, -, hg⟩ | ⟨e, denial, rfl, -, -, -, hg⟩ | ⟨-, ⟨rfl, -, hg⟩ | ⟨leased, -, rfl, -, hg⟩⟩
      · exact hg
      · exact hg
      · exact hg
      · exact hg
    · intro key
      by_cases hkey : subject.key = key
      · subst hkey
        rcases hcases with ⟨rfl, hentry, hlookup, -⟩ | ⟨e, denial, rfl, hentry, hdeny, hlookup, -⟩ |
          ⟨hdeny, ⟨rfl, hlookup, -⟩ | ⟨leased, hleased, rfl, hlookup, -⟩⟩
        · rw [hentry] at hcleaned
          exact .full subject rfl rfl rfl hcleaned hlookup
        · rw [hentry] at hcleaned
          have hbefore : data.entries.lookup subject.key = some e := by
            rcases hcleaned with h | ⟨-, -, -, h⟩
            · exact h.symm
            · cases h
          exact .denied subject rfl rfl e denial rfl hbefore hdeny hlookup
        · exact .exhausted subject rfl rfl rfl _ hcleaned hdeny hlookup
        · exact .admitted subject rfl rfl _ rfl hcleaned hdeny leased hleased hlookup
      · refine .other hkey ?_
        have := @admitLocked_other store reading data capacity subject.policy _ _ hkey
        rw [hgrant] at this
        exact this
  | complete receipt outcome =>
    have hserve := fun result data' => @serve_complete _ capacity store reading receipt outcome data result data'
    have hle : data.now ≤ max data.now reading := le_max_left _ _
    rcases completeLocked_cases store reading receipt outcome data with
      ⟨hstore, entry, hentry, hholds⟩ | ⟨hnot, hstale⟩
    · by_cases houtcome : outcome = .success
      · subst houtcome
        rw [hserve _ _ (completeLocked_success hstore hentry hholds)] at h
        cases h
        refine ⟨⟨rfl, rfl, hle, rfl⟩, ?_⟩
        intro key
        by_cases hkey : receipt.key = key
        · subst hkey
          refine .applied receipt .success rfl rfl hstore entry hentry hholds _ rfl rfl
            (Or.inl ⟨rfl, rfl, rfl, ?_⟩)
          rw [Finmap.lookup_erase_if, if_pos rfl]
        · refine .other hkey (Or.inl ?_)
          rw [Finmap.lookup_erase_if, if_neg (Ne.symm hkey)]
      · obtain ⟨done, hcomplete, h1, h2, h3⟩ := completeLocked_failure houtcome hstore hentry hholds
        rw [hserve _ _ hcomplete] at h
        cases h
        refine ⟨⟨rfl, rfl, hle, rfl⟩, ?_⟩
        intro key
        by_cases hkey : receipt.key = key
        · subst hkey
          refine .applied receipt outcome rfl rfl hstore entry hentry hholds done rfl h1
            (Or.inr ⟨houtcome, h2, h3, ?_⟩)
          rw [Finmap.lookup_insert]
        · refine .other hkey (Or.inl ?_)
          rw [Finmap.lookup_insert_if, if_neg (Ne.symm hkey)]
    · rw [hserve _ _ hstale] at h
      cases h
      refine ⟨⟨rfl, rfl, hle, rfl⟩, ?_⟩
      intro key
      by_cases hkey : receipt.key = key
      · subst hkey
        exact .stale receipt outcome rfl rfl rfl hnot rfl
      · exact .other hkey (Or.inl rfl)

end MemoryAttemptLimiter

end Runlimit
