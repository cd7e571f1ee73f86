import Runlimit.Proof.EagerRefines

/-!
# Backoff cannot be bypassed

Between two admissions of a key the attempt of the first one is pending, has failed, or has
succeeded. `Since` follows it through whatever else happens in between; the second admission then
finds the key in the state the eager machine has reached from there, and that state admits only
after the delay. A key that has gone quiet admits too, but not earlier: the quiet period is at
least the maximum delay.
-/

namespace Runlimit

variable {policy : AttemptPolicy} {t : ℕ}

/-- A key that has failed admits after its delay. -/
theorem admitted_of_failed {n f : ℕ} {receipt receipt' : MemoryAttemptReceipt}
    (h : (((EagerKey.failed n f).elapse policy t).tryAdmit policy t receipt).1 = .admitted receipt') :
    f + policy.delayNanos n ≤ t := by
  have hdelay := policy.delayNanos_le n
  have hquiet : policy.maximumDelay.nanos ≤ policy.quietPeriod.nanos :=
    Nat.mul_le_mul_right _ policy.maximum_le
  rcases Nat.lt_or_ge t (f + policy.quietPeriod.nanos) with hlt | hge
  · rw [EagerKey.elapse_failed_of_lt hlt] at h
    unfold EagerKey.tryAdmit at h
    simp only at h
    split at h
    · cases h
    · omega
  · omega

/-- A key with a lease admits after the lease has failed, and its delay. -/
theorem admitted_of_leased {n g d : ℕ} {receipt receipt' : MemoryAttemptReceipt}
    (h : (((EagerKey.leased n g d).elapse policy t).tryAdmit policy t receipt).1 = .admitted receipt') :
    d + policy.delayNanos (n + 1) ≤ t := by
  rcases Nat.lt_or_ge t d with hlt | hge
  · rw [EagerKey.elapse_leased_of_lt hlt] at h
    cases h
  · rw [EagerKey.elapse_leased_of_le hge] at h
    exact admitted_of_failed h

variable {key : AttemptKey} {event : AttemptEvent}

/-- A completion of the key is applied. -/
def AttemptEvent.Ends (event : AttemptEvent) (key : AttemptKey) (outcome : AttemptOutcome) : Prop :=
  ∃ receipt, receipt.key = key ∧ event.Completes receipt outcome

/-- What has become of an attempt that was admitted after `n` failures with a lease until `d`,
in the events since. -/
inductive Since (policy : AttemptPolicy) (key : AttemptKey) (n g d : ℕ) (events : List AttemptEvent)
    (now : ℕ) (state : EagerKey) : Prop where
  | pending (hnone : ∀ e ∈ events, ∀ outcome, ¬ e.Ends key outcome)
      (hstate : ∀ t, now ≤ t → state.elapse policy t = (EagerKey.leased n g d).elapse policy t)
  | failed (f : ℕ) (hsome : ∃ e ∈ events, ∃ outcome, e.Ends key outcome)
      (hall : ∀ e ∈ events, ∀ outcome, e.Ends key outcome → outcome ≠ .success ∧ e.now.nanos = f)
      (hstate : ∀ t, now ≤ t → state.elapse policy t = (EagerKey.failed (n + 1) f).elapse policy t)
  | succeeded (hsome : ∃ e ∈ events, ∃ outcome, e.Ends key outcome)
      (hall : ∀ e ∈ events, ∀ outcome, e.Ends key outcome → outcome = .success)
      (hstate : ∀ t, now ≤ t → state.elapse policy t = .initial)

/-- Nothing happens to the attempt. -/
theorem Since.passed {n g d now : ℕ} {events : List AttemptEvent} {state : EagerKey}
    (h : Since policy key n g d events now state) (hle : now ≤ event.now.nanos)
    (hends : ∀ outcome, ¬ event.Ends key outcome) :
    Since policy key n g d (events ++ [event]) event.now.nanos (state.elapse policy event.now.nanos) := by
  have hsnoc : ∀ {P : AttemptEvent → AttemptOutcome → Prop},
      (∀ e ∈ events, ∀ outcome, e.Ends key outcome → P e outcome) →
      ∀ e ∈ events ++ [event], ∀ outcome, e.Ends key outcome → P e outcome := by
    intro P hP e he outcome hend
    rcases List.mem_append.1 he with he | he
    · exact hP e he outcome hend
    · rw [List.mem_singleton.1 he] at hend
      exact absurd hend (hends outcome)
  have hsome : (∃ e ∈ events, ∃ outcome, e.Ends key outcome) →
      ∃ e ∈ events ++ [event], ∃ outcome, e.Ends key outcome := by
    rintro ⟨e, he, hend⟩
    exact ⟨e, List.mem_append_left _ he, hend⟩
  cases h with
  | pending hnone hstate =>
    refine .pending (hsnoc hnone) ?_
    intro t ht
    rw [EagerKey.elapse_elapse ht, hstate t (hle.trans ht)]
  | failed f hex hall hstate =>
    refine .failed f (hsome hex) (hsnoc hall) ?_
    intro t ht
    rw [EagerKey.elapse_elapse ht, hstate t (hle.trans ht)]
  | succeeded hex hall hstate =>
    refine .succeeded (hsome hex) (hsnoc hall) ?_
    intro t ht
    rw [EagerKey.elapse_elapse ht, hstate t (hle.trans ht)]

/-- A completion of the machine is stale, or ends a lease. -/
theorem complete_cases (state : EagerKey) (now : ℕ) (store : StoreId) (receipt : MemoryAttemptReceipt)
    (outcome : AttemptOutcome) :
    state.complete policy now store receipt outcome = (.stale, state) ∨
      ∃ n g d done, state = .leased n g d ∧
        (state.complete policy now store receipt outcome).1 = .applied done ∧
        (outcome = .success ∧ (state.complete policy now store receipt outcome).2 = .initial ∨
          outcome ≠ .success ∧ (state.complete policy now store receipt outcome).2 = .failed (n + 1) now) := by
  cases state with
  | initial => exact Or.inl rfl
  | failed n f => exact Or.inl rfl
  | leased n g d =>
    unfold EagerKey.complete
    simp only
    split
    · split
      · rename_i houtcome
        exact Or.inr ⟨n, g, d, _, rfl, rfl, Or.inl ⟨houtcome, rfl⟩⟩
      · rename_i houtcome
        exact Or.inr ⟨n, g, d, _, rfl, rfl, Or.inr ⟨houtcome, rfl⟩⟩
    · exact Or.inl rfl

/-- The machine stays where it is when it denies. -/
theorem admit_denied {state : EagerKey} {now : ℕ} {receipt : MemoryAttemptReceipt} {denial : AttemptDenial}
    (h : (state.tryAdmit policy now receipt).1 = .denied denial) : (state.tryAdmit policy now receipt).2 = state := by
  cases state with
  | initial => cases h
  | leased n g d => rfl
  | failed n f =>
    unfold EagerKey.tryAdmit at h ⊢
    simp only at h ⊢
    split
    · rfl
    · rename_i hready
      rw [if_neg hready] at h
      cases h

/-- An admission of the machine leases the key, with the failures it has. -/
theorem admit_admitted {state : EagerKey} {now : ℕ} {receipt receipt' : MemoryAttemptReceipt}
    (h : (state.tryAdmit policy now receipt).1 = .admitted receipt') :
    (state.tryAdmit policy now receipt).2 =
      .leased state.failures receipt.generation (now + policy.lease.nanos) := by
  cases state with
  | initial => rfl
  | leased n g d => cases h
  | failed n f =>
    unfold EagerKey.tryAdmit at h ⊢
    simp only at h ⊢
    split
    · rename_i hlt
      rw [if_pos hlt] at h
      cases h
    · rfl

/-- An applied completion ends the attempt that was pending. -/
theorem Since.ended {n g d now : ℕ} {events : List AttemptEvent} {state : EagerKey}
    {receipt : MemoryAttemptReceipt} {outcome : AttemptOutcome}
    (h : Since policy key n g d events now state) (hle : now ≤ event.now.nanos)
    (hcompletes : event.Completes receipt outcome) (hkey : receipt.key = key) {n' g' d' : ℕ}
    (hleased : state.elapse policy event.now.nanos = .leased n' g' d') :
    ∀ state', (outcome = .success ∧ state' = .initial ∨
        outcome ≠ .success ∧ state' = .failed (n' + 1) event.now.nanos) →
      Since policy key n g d (events ++ [event]) event.now.nanos state' := by
  intro state' hstate'
  have hend : ∃ e ∈ events ++ [event], ∃ outcome, e.Ends key outcome :=
    ⟨event, List.mem_append_right _ (List.mem_singleton_self _), outcome, receipt, hkey, hcompletes⟩
  -- the event says which outcome was applied
  have honly : ∀ o, event.Ends key o → o = outcome := by
    rintro o ⟨r, -, hr⟩
    have heq := hr.1.symm.trans hcompletes.1
    cases heq
    rfl
  cases h with
  | failed f hsome hall hstate =>
    rw [hstate _ hle] at hleased
    cases (EagerKey.of_elapse_leased hleased).1
  | succeeded hsome hall hstate =>
    rw [hstate _ hle] at hleased
    cases hleased
  | pending hnone hstate =>
    rw [hstate _ hle] at hleased
    obtain ⟨heq, -⟩ := EagerKey.of_elapse_leased hleased
    cases heq
    -- the only completion since the admission is this one
    have hsnoc : ∀ {P : AttemptEvent → AttemptOutcome → Prop}, P event outcome →
        ∀ e ∈ events ++ [event], ∀ o, e.Ends key o → P e o := by
      intro P hP e he o ho
      rcases List.mem_append.1 he with he | he
      · exact absurd ho (hnone e he o)
      · rw [List.mem_singleton.1 he] at ho ⊢
        rw [honly o ho]
        exact hP
    rcases hstate' with ⟨hsuccess, rfl⟩ | ⟨hfailure, rfl⟩
    · exact .succeeded hend (hsnoc hsuccess) fun _ _ => rfl
    · exact .failed _ hend (hsnoc ⟨hfailure, rfl⟩) fun _ _ => rfl

section Runs

variable [Sha2] {store : StoreId} {eager : Eager}

/-- **One event.** -/
theorem Since.step {n g d now : ℕ} {events : List AttemptEvent}
    (h : Since policy key n g d events now eager.key) (hle : now ≤ event.now.nanos)
    (hanswers : event.request.key = key → eager.Answers policy store key event)
    (hnot : ¬ event.Admits key) :
    Since policy key n g d (events ++ [event]) event.now.nanos (eager.observe policy store key event).key := by
  by_cases hcond : event.request.key = key ∧ ¬ event.response.Unavailable
  · obtain ⟨hkey, havailable⟩ := hcond
    have hanswer := hanswers hkey
    unfold Eager.Answers at hanswer
    cases hrequest : event.request with
    | tryAdmit subject =>
      rw [hrequest] at hanswer hkey
      have hresponse := hanswer.resolve_left havailable
      have hends : ∀ outcome, ¬ event.Ends key outcome := by
        rintro outcome ⟨receipt, -, hcompletes⟩
        have heq := hcompletes.1
        rw [hrequest] at heq
        cases heq
      rw [observe_key_tryAdmit policy store eager hrequest hkey havailable]
      cases hgrant : ((eager.due policy event).tryAdmit policy event.now.nanos (eager.receipt store key)).1 with
      | admitted receipt =>
        rw [hgrant] at hresponse
        -- the machine admits only where the event does
        exact absurd ⟨by rw [hrequest]; exact hkey, by rw [hresponse]; rfl⟩ hnot
      | denied denial =>
        rw [admit_denied hgrant]
        exact h.passed hle hends
    | complete receipt outcome =>
      rw [hrequest] at hanswer hkey
      simp only at hanswer
      rw [observe_key_complete policy store eager hrequest hkey havailable]
      rcases complete_cases (eager.due policy event) event.now.nanos store receipt outcome with
        hstale | ⟨n', g', d', done, hleased, happlied, hnext⟩
      · rw [hstale] at hanswer ⊢
        refine h.passed hle ?_
        rintro o ⟨r, -, hcompletes⟩
        have happlied := hcompletes.2
        rw [hanswer] at happlied
        cases happlied
      · rw [happlied] at hanswer
        have hcompletes : event.Completes receipt outcome := ⟨hrequest, by rw [hanswer]; rfl⟩
        -- the completion is applied: the attempt that was pending ends with it
        exact h.ended hle hcompletes hkey hleased _ hnext
  · rw [observe_key_of_not hcond]
    refine h.passed hle ?_
    rintro outcome ⟨receipt, hkey, hcompletes⟩
    refine hcond ⟨by rw [hcompletes.1]; exact hkey, ?_⟩
    have happlied := hcompletes.2
    rintro (heq | heq)
    · rw [heq] at happlied
      cases happlied
    · rw [heq] at happlied
      cases happlied

/-- What the machine does when an event admits an attempt of its key. -/
theorem Eager.Answers.admits (h : eager.Answers policy store key event) (hadmits : event.Admits key) :
    ∃ subject receipt, event.request = .tryAdmit subject ∧ ¬ event.response.Unavailable ∧
      ((eager.due policy event).tryAdmit policy event.now.nanos (eager.receipt store key)).1 = .admitted receipt := by
  unfold Eager.Answers at h
  obtain ⟨-, hreceipt⟩ := hadmits
  cases hrequest : event.request with
  | complete receipt outcome =>
    rw [hrequest] at h
    simp only at h
    rw [h] at hreceipt
    cases hreceipt
  | tryAdmit subject =>
    rw [hrequest] at h
    have havailable : ¬ event.response.Unavailable := by
      rintro (heq | heq)
      · rw [heq] at hreceipt
        cases hreceipt
      · rw [heq] at hreceipt
        cases hreceipt
    have hresponse := h.resolve_left havailable
    cases hgrant : ((eager.due policy event).tryAdmit policy event.now.nanos (eager.receipt store key)).1 with
    | admitted receipt => exact ⟨subject, receipt, rfl, havailable, rfl⟩
    | denied denial =>
      rw [hresponse, hgrant] at hreceipt
      cases hreceipt

/-- The machine after an event that admits an attempt of its key. -/
theorem observe_admits (hanswers : eager.Answers policy store key event) (hadmits : event.Admits key) :
    (eager.observe policy store key event).key = .leased (eager.due policy event).failures
      (eager.receipt store key).generation (event.now.nanos + policy.lease.nanos) := by
  obtain ⟨subject, receipt, hrequest, havailable, hgrant⟩ := hanswers.admits hadmits
  have hkey := hadmits.1
  rw [hrequest] at hkey
  rw [observe_key_tryAdmit policy store eager hrequest hkey havailable]
  exact admit_admitted hgrant

/-- Since an admission, in the events of a run that follow it. -/
theorem run_since (capacity : ℕ) {events : List AttemptEvent} {m : Mutex AttemptState}
    (htracked : Tracked policy store key events m) {n g d : ℕ}
    (hleased : (Eager.after policy store key events).key = .leased n g d) {calls : List AttemptCall}
    (hcalls : ∀ call ∈ calls, Brings policy key call)
    (hnone : ∀ e ∈ Machine.outputs (MemoryAttemptLimiter.serve capacity store) m calls, ¬ e.Admits key) :
    Since policy key n g d (Machine.outputs (MemoryAttemptLimiter.serve capacity store) m calls)
        (Machine.final (MemoryAttemptLimiter.serve capacity store) m calls).data.now.nanos
        (Eager.after policy store key
          (events ++ Machine.outputs (MemoryAttemptLimiter.serve capacity store) m calls)).key ∧
      Tracked policy store key (events ++ Machine.outputs (MemoryAttemptLimiter.serve capacity store) m calls)
        (Machine.final (MemoryAttemptLimiter.serve capacity store) m calls) := by
  have hstep : ∀ call es (m : Mutex AttemptState), Brings policy key call →
      (Tracked policy store key (events ++ es) m ∧ ((∀ e ∈ es, ¬ e.Admits key) →
        Since policy key n g d es m.data.now.nanos (Eager.after policy store key (events ++ es)).key)) →
      Tracked policy store key (events ++ (es ++ [(MemoryAttemptLimiter.serve capacity store call m).1]))
          (MemoryAttemptLimiter.serve capacity store call m).2 ∧
        ((∀ e ∈ es ++ [(MemoryAttemptLimiter.serve capacity store call m).1], ¬ e.Admits key) →
          Since policy key n g d (es ++ [(MemoryAttemptLimiter.serve capacity store call m).1])
            (MemoryAttemptLimiter.serve capacity store call m).2.data.now.nanos
            (Eager.after policy store key
              (events ++ (es ++ [(MemoryAttemptLimiter.serve capacity store call m).1]))).key) := by
    rintro call es m hcall ⟨htracked, hsince⟩
    obtain ⟨hanswers, htracked'⟩ := htracked.step capacity hcall
    obtain ⟨hserved, -⟩ := MemoryAttemptLimiter.serve_attemptStep htracked.unpoisoned
      (Prod.mk.eta (p := MemoryAttemptLimiter.serve capacity store call m)).symm
    rw [← List.append_assoc]
    refine ⟨htracked', ?_⟩
    intro hnone
    rw [List.forall_mem_append, List.forall_mem_singleton] at hnone
    rw [Eager.after_snoc, hserved.now_eq]
    exact (hsince hnone.1).step hserved.now_le hanswers hnone.2
  -- right after the admission nothing has happened since
  have hstart : Tracked policy store key (events ++ []) m ∧ ((∀ e ∈ ([] : List AttemptEvent), ¬ e.Admits key) →
      Since policy key n g d [] m.data.now.nanos (Eager.after policy store key (events ++ [])).key) := by
    rw [List.append_nil, hleased]
    refine ⟨htracked, ?_⟩
    intro _
    refine .pending ?_ fun _ _ => rfl
    simp
  have hinv := Machine.history_inv
    (fun es m => Tracked policy store key (events ++ es) m ∧ ((∀ e ∈ es, ¬ e.Admits key) →
      Since policy key n g d es m.data.now.nanos (Eager.after policy store key (events ++ es)).key))
    hstep hstart hcalls
  exact ⟨hinv.2 hnone, hinv.1⟩

/-- An attempt that is pending or has failed lets the next admission in after its delay. -/
theorem Since.admits {n g d now : ℕ} {events : List AttemptEvent}
    (h : Since policy key n g d events now eager.key) (hle : now ≤ event.now.nanos)
    (hanswers : eager.Answers policy store key event) (hadmits : event.Admits key) :
    (∀ e ∈ events, ∀ outcome, e.Ends key outcome → outcome ≠ .success →
        e.now.nanos + policy.delayNanos (n + 1) ≤ event.now.nanos) ∧
      ((∀ e ∈ events, ∀ outcome, ¬ e.Ends key outcome) → d + policy.delayNanos (n + 1) ≤ event.now.nanos) := by
  obtain ⟨subject, receipt, -, -, hgrant⟩ := hanswers.admits hadmits
  unfold Eager.due at hgrant
  cases h with
  | pending hnone hstate =>
    rw [hstate _ hle] at hgrant
    -- still pending: the machine lets it expire, which is a failure at the deadline
    exact ⟨fun e he outcome hend => absurd hend (hnone e he outcome), fun _ => admitted_of_leased hgrant⟩
  | failed f hsome hall hstate =>
    rw [hstate _ hle] at hgrant
    refine ⟨?_, ?_⟩
    · intro e he outcome hend _
      rw [(hall e he outcome hend).2]
      exact admitted_of_failed hgrant
    · intro hnone
      obtain ⟨e, he, outcome, hend⟩ := hsome
      exact absurd hend (hnone e he outcome)
  | succeeded hsome hall hstate =>
    refine ⟨fun e he outcome hend hne => absurd (hall e he outcome hend) hne, ?_⟩
    intro hnone
    obtain ⟨e, he, outcome, hend⟩ := hsome
    exact absurd hend (hnone e he outcome)

/-- **Backoff is never bypassed.** Take two admissions of a key with none in between. If the
attempt of the first fails as the `k`-th failure in a row, by a completion at some time or by
reaching its deadline, then the second is at least the delay of `k` failures after that time. -/
theorem attempts_backoff (capacity : ℕ) (store : StoreId) (calls : List AttemptCall)
    (known : Set AttemptPolicy) (hfree : Set.InjOn Sha2.sha256 (AttemptPolicy.preimage '' known))
    (hknown : attemptPolicies calls ⊆ known) (hreadings : ∀ call ∈ calls, Unsaturated call.reading)
    (policy : AttemptPolicy) (hpolicy : policy ∈ known) (subject : SubjectKey)
    (before : List AttemptEvent) (first : AttemptEvent) (between : List AttemptEvent) (next : AttemptEvent)
    (after : List AttemptEvent)
    (hrun : MemoryAttemptLimiter.run capacity store calls = before ++ first :: (between ++ next :: after))
    (hfirst : first.Admits ⟨policy.fingerprint, subject⟩) (hnext : next.Admits ⟨policy.fingerprint, subject⟩)
    (hbetween : ∀ event ∈ between, ¬ event.Admits ⟨policy.fingerprint, subject⟩) (k : ℕ)
    (hk : k = ((Eager.after policy store ⟨policy.fingerprint, subject⟩ before).due policy first).failures + 1) :
    (∀ event ∈ between, ∀ outcome, event.Ends ⟨policy.fingerprint, subject⟩ outcome → outcome ≠ .success →
        event.now.nanos + min (policy.initialDelay.nanos * 2 ^ (k - 1)) policy.maximumDelay.nanos ≤
          next.now.nanos) ∧
      ((∀ event ∈ between, ∀ outcome, ¬ event.Ends ⟨policy.fingerprint, subject⟩ outcome) →
        first.now.nanos + policy.lease.nanos +
            min (policy.initialDelay.nanos * 2 ^ (k - 1)) policy.maximumDelay.nanos ≤ next.now.nanos) := by
  set key : AttemptKey := ⟨policy.fingerprint, subject⟩ with hkey
  have hbrings : ∀ call ∈ calls, Brings policy key call := by
    intro call hcall
    refine ⟨hreadings call hcall, ?_⟩
    intro s hs hs'
    exact policy_of_key hfree hpolicy (hknown ⟨call, hcall, s, hs, rfl⟩) hs'
  -- cut the run at the two admissions
  obtain ⟨cs, c, rest, rfl, rfl, rfl, hrest⟩ := Machine.outputs_eq_append_cons hrun
  obtain ⟨cs', c', cs'', rfl, rfl, rfl, -⟩ := Machine.outputs_eq_append_cons hrest
  simp only [List.forall_mem_append, List.forall_mem_cons] at hbrings
  obtain ⟨hcs, hc, hcs', hc', -⟩ := hbrings
  obtain ⟨hanswers, htracked⟩ := (run_tracked capacity store hcs).step capacity hc
  have hleased := observe_admits (hanswers hfirst.1) hfirst
  rw [← Eager.after_snoc] at hleased
  obtain ⟨hsince, htracked'⟩ := run_since capacity htracked hleased hcs' hbetween
  obtain ⟨hanswers', -⟩ := htracked'.step capacity hc'
  obtain ⟨hserved, -⟩ := MemoryAttemptLimiter.serve_attemptStep htracked'.unpoisoned (Prod.mk.eta
    (p := MemoryAttemptLimiter.serve capacity store c' (Machine.final (MemoryAttemptLimiter.serve capacity store)
      (MemoryAttemptLimiter.serve capacity store c (MemoryAttemptLimiter.after capacity store cs)).2 cs'))).symm
  have hdelay := hsince.admits hserved.now_le (hanswers' hnext.1) hnext
  have hmin : policy.delayNanos k = min (policy.initialDelay.nanos * 2 ^ (k - 1)) policy.maximumDelay.nanos := by
    unfold AttemptPolicy.delayNanos
    rw [if_neg (by omega)]
  rw [← hmin, hk]
  exact hdelay

end Runs

/-- The login attempt that fails after five milliseconds: one two milliseconds later is denied, and
one at twenty milliseconds is admitted. -/
theorem attempts_backoff_login :
    letI := vectorSha2
    ∃ first second third fourth,
      MemoryAttemptLimiter.run 4 3 [loginAdmit 0, loginFailure, loginAdmit 7, loginAdmit 20] =
        [] ++ first :: ([second, third] ++ fourth :: []) ∧
      second.Ends ⟨loginAttempts.fingerprint, Digest.replicate 1⟩ .failure ∧
      second.now.nanos + min (loginAttempts.initialDelay.nanos * 2 ^ (1 - 1)) loginAttempts.maximumDelay.nanos ≤
        fourth.now.nanos := by
  let := vectorSha2
  have hfree : Set.InjOn Sha2.sha256 (AttemptPolicy.preimage '' {loginAttempts}) := by
    rw [Set.image_singleton]
    exact Set.injOn_singleton _ _
  have hknown : attemptPolicies [loginAdmit 0, loginFailure, loginAdmit 7, loginAdmit 20] ⊆ {loginAttempts} := by
    rintro policy ⟨call, hcall, subject, hrequest, rfl⟩
    simp only [List.mem_cons, List.not_mem_nil, or_false] at hcall
    rcases hcall with rfl | rfl | rfl | rfl
    · cases hrequest
      rfl
    · cases hrequest
    · cases hrequest
      rfl
    · cases hrequest
      rfl
  have hreadings : ∀ call ∈ [loginAdmit 0, loginFailure, loginAdmit 7, loginAdmit 20],
      Unsaturated call.reading := by
    intro call hcall
    simp only [List.mem_cons, List.not_mem_nil, or_false] at hcall
    unfold Unsaturated
    rcases hcall with rfl | rfl | rfl | rfl
    · decide
    · decide
    · decide
    · decide
  have hends : AttemptEvent.Ends
      ((MemoryAttemptLimiter.run 4 3 [loginAdmit 0, loginFailure, loginAdmit 7, loginAdmit 20]).get ⟨1, by decide⟩)
      ⟨loginAttempts.fingerprint, Digest.replicate 1⟩ .failure :=
    ⟨_, rfl, rfl, by decide +kernel⟩
  refine ⟨_, _, _, _, rfl, hends, ?_⟩
  refine (attempts_backoff 4 3 [loginAdmit 0, loginFailure, loginAdmit 7, loginAdmit 20] {loginAttempts} hfree
    hknown hreadings loginAttempts rfl (Digest.replicate 1) [] _ [_, _] _ [] rfl ?_ ?_ ?_ 1 ?_).1 _ ?_ _ hends ?_
  · exact ⟨rfl, by decide +kernel⟩
  · exact ⟨rfl, by decide +kernel⟩
  · rw [List.forall_mem_cons, List.forall_mem_singleton]
    exact ⟨fun h => absurd h.2 (by decide +kernel), fun h => absurd h.2 (by decide +kernel)⟩
  · decide +kernel
  · exact List.mem_cons_self
  · decide

end Runlimit
