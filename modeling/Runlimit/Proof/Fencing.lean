import Runlimit.Proof.AttemptSteps

/-!
# Reservations are exclusive, completions are fenced

A receipt is *held* in its store while the entry of its key is leased to its generation, and
*fenced off* once no entry can be leased to it again. An admission of the key, an applied
completion and a lease that has run out all fence off the receipt that was held before. A fenced
receipt stays fenced, and no completion is applied by one.
-/

namespace Runlimit

variable [Sha2] {store : StoreId} {receipt : MemoryAttemptReceipt} {event : AttemptEvent}
  {s s' : AttemptState}

/-- The lease stored for a key. -/
def AttemptState.leaseOf (s : AttemptState) (key : AttemptKey) : Option (ℕ × Duration) :=
  (s.entries.lookup key).bind (·.lease)

/-- The entry of the receipt's key is leased to it. -/
def Held (receipt : MemoryAttemptReceipt) (s : AttemptState) : Prop :=
  receipt.generation ≤ s.generation ∧ ∃ deadline, s.leaseOf receipt.key = some (receipt.generation, deadline)

/-- No entry is or will be leased to the receipt. -/
def Fenced (receipt : MemoryAttemptReceipt) (s : AttemptState) : Prop :=
  receipt.generation ≤ s.generation ∧ ∀ lease ∈ s.leaseOf receipt.key, lease.1 ≠ receipt.generation

/-! ## Leases -/

omit [Sha2] in
/-- Reconciling an entry ends its lease or leaves it as it is. -/
theorem reconcile_lease (entry : AttemptEntry) (now : Duration) :
    (entry.reconcile now).lease = entry.lease ∨ (entry.reconcile now).lease = none := by
  have hforget : ∀ e : AttemptEntry, (e.forgetFailures now).lease = e.lease := by
    intro e
    unfold AttemptEntry.forgetFailures
    split
    · rfl
    · rfl
  unfold AttemptEntry.reconcile
  rw [hforget]
  unfold AttemptEntry.expireLease
  split
  · split
    · exact Or.inr rfl
    · exact Or.inl rfl
  · exact Or.inl rfl

omit [Sha2] in
/-- A cleanup grants no lease. -/
theorem Cleaned.lease {now : Duration} {before after : Option AttemptEntry} (h : Cleaned now before after) :
    ∀ lease ∈ after.bind (·.lease), lease ∈ before.bind (·.lease) := by
  intro lease hlease
  rcases h with h | ⟨entry, -, -, h⟩
  · rw [h] at hlease
    exact hlease
  · rw [h] at hlease
    cases hlease

/-- **What a call does to a lease.** It grants one of the next generation, or what is left after
the call was there before; an applied completion leaves none. -/
theorem AttemptStep.leaseOf {key : AttemptKey} (h : AttemptStep store key event s s') :
    (event.Admits key ∧ event.response.receipt = some ⟨store, key, s.generation + 1⟩ ∧
      ∃ entry, s'.entries.lookup key = some entry ∧
        s'.leaseOf key = some (s.generation + 1, event.now.saturatingAdd entry.policy.lease.duration)) ∨
    (¬ event.Admits key ∧ (∀ lease ∈ s'.leaseOf key, lease ∈ s.leaseOf key) ∧
      ∀ receipt outcome, receipt.key = key → event.Completes receipt outcome →
        receipt.store = store ∧ s'.leaseOf key = none ∧
        ∃ deadline, s.leaseOf key = some (receipt.generation, deadline) ∧ event.now < deadline) := by
  -- an admission applies no completion
  have hgrant : ∀ {subject : AttemptSubject}, event.request = .tryAdmit subject →
      ∀ receipt outcome, ¬ event.Completes receipt outcome := by
    intro subject hrequest receipt outcome h
    rw [h.1] at hrequest
    cases hrequest
  -- reconciling an entry grants nothing
  have hreconcile : ∀ {e : AttemptEntry} {now : Duration} {lease : ℕ × Duration},
      lease ∈ (e.reconcile now).lease → lease ∈ e.lease := by
    intro e now lease hlease
    rcases reconcile_lease e now with h | h
    · exact h ▸ hlease
    · rw [h] at hlease
      cases hlease
  unfold AttemptState.leaseOf
  cases h with
  | other hkey hentry =>
    refine Or.inr ⟨fun h => hkey h.1, hentry.lease, ?_⟩
    intro receipt outcome hreceipt hcompletes
    rw [hcompletes.1] at hkey
    exact absurd hreceipt hkey
  | full subject hrequest hkey hresponse hentry hentry' =>
    refine Or.inr ⟨?_, ?_, fun receipt outcome _ h => absurd h (hgrant hrequest receipt outcome)⟩
    · rintro ⟨-, h⟩
      rw [hresponse] at h
      cases h
    · rw [hentry']
      intro lease hlease
      cases hlease
  | denied subject hrequest hkey entry denial hresponse hentry hdeny hentry' =>
    refine Or.inr ⟨?_, ?_, fun receipt outcome _ h => absurd h (hgrant hrequest receipt outcome)⟩
    · rintro ⟨-, h⟩
      rw [hresponse] at h
      cases h
    · rw [hentry', hentry]
      intro lease hlease
      exact hreconcile hlease
  | exhausted subject hrequest hkey hresponse entry hentry hdeny hentry' =>
    refine Or.inr ⟨?_, ?_, fun receipt outcome _ h => absurd h (hgrant hrequest receipt outcome)⟩
    · rintro ⟨-, h⟩
      rw [hresponse] at h
      cases h
    · rw [hentry']
      intro lease hlease
      refine hentry.lease lease ?_
      cases entry with
      | none => cases hlease
      | some e => exact hreconcile hlease
  | admitted subject hrequest hkey entry hresponse hentry hdeny leased hleased hentry' =>
    -- the only step that grants a lease, of the next generation
    refine Or.inl ⟨⟨by rw [hrequest]; exact hkey, by rw [hresponse]; rfl⟩, by rw [hresponse]; rfl, ?_⟩
    exact ⟨_, hentry', by rw [hentry']; rfl⟩
  | applied receipt outcome hrequest hkey hstore entry hentry hholds done hresponse houtcome hdone =>
    -- either outcome takes the lease away
    have hnone : (s'.entries.lookup key).bind (·.lease) = none := by
      rcases hdone with ⟨-, -, -, h⟩ | ⟨-, -, -, h⟩
      · rw [h]
        rfl
      · rw [h]
        rfl
    refine Or.inr ⟨?_, ?_, ?_⟩
    · rintro ⟨-, h⟩
      rw [hresponse] at h
      cases h
    · rw [hnone]
      intro lease hlease
      cases hlease
    · intro receipt' outcome' _ hcompletes
      obtain ⟨hrequest', -⟩ := hcompletes
      rw [hrequest, AttemptRequest.complete.injEq] at hrequest'
      obtain ⟨rfl, -⟩ := hrequest'
      obtain ⟨deadline, hlease, hlt⟩ := hholds
      refine ⟨hstore, hnone, deadline, ?_, hlt⟩
      rw [hentry]
      exact hlease
  | stale receipt outcome hrequest hkey hresponse hnot hentry' =>
    refine Or.inr ⟨?_, ?_, ?_⟩
    · rintro ⟨-, h⟩
      rw [hresponse] at h
      cases h
    · rw [hentry']
      exact fun lease h => h
    · intro receipt' outcome' _ hcompletes
      have happlied := hcompletes.2
      rw [hresponse] at happlied
      cases happlied

/-- An event is not both an admission and an applied completion. -/
theorem AttemptEvent.Admits.not_completes {key : AttemptKey} (h : event.Admits key)
    (outcome : AttemptOutcome) : ¬ event.Completes receipt outcome := by
  intro hcompletes
  have hreceipt := h.2
  have happlied := hcompletes.2
  cases hr : event.response with
  | tryAdmit result =>
    rw [hr] at happlied
    cases happlied
  | complete result =>
    rw [hr] at hreceipt
    cases hreceipt

/-! ## Held and fenced receipts -/

/-- A fenced receipt stays fenced. -/
theorem Fenced.step (h : Fenced receipt s) (hstep : AttemptStep store receipt.key event s s')
    (hgeneration : s.generation ≤ s'.generation) : Fenced receipt s' := by
  refine ⟨h.1.trans hgeneration, ?_⟩
  intro lease hlease
  rcases hstep.leaseOf with ⟨-, -, entry, -, hnew⟩ | ⟨-, hold, -⟩
  · -- a new lease is of a generation above the receipt's
    rw [hnew, Option.mem_some] at hlease
    have := h.1
    rw [← hlease]
    simp only
    omega
  · exact h.2 lease (hold lease hlease)

/-- A held receipt stays held, unless it is fenced; an admission of its key fences it, and so
does its own completion. -/
theorem Held.step (h : Held receipt s) (hstep : AttemptStep store receipt.key event s s')
    (hgeneration : s.generation ≤ s'.generation) :
    Fenced receipt s' ∨ (Held receipt s' ∧ ¬ event.Admits receipt.key) := by
  obtain ⟨hle, deadline, hlease⟩ := h
  rcases hstep.leaseOf with ⟨-, -, entry, -, hnew⟩ | ⟨hnot, hold, -⟩
  · refine Or.inl ⟨hle.trans hgeneration, ?_⟩
    intro lease hmem
    rw [hnew, Option.mem_some] at hmem
    rw [← hmem]
    simp only
    omega
  · -- no lease was granted: the one there is gone, or still the receipt's
    cases hafter : s'.leaseOf receipt.key with
    | none =>
      refine Or.inl ⟨hle.trans hgeneration, ?_⟩
      intro lease hmem
      rw [hafter] at hmem
      cases hmem
    | some lease =>
      have hbefore := hold lease hafter
      rw [hlease, Option.mem_some] at hbefore
      refine Or.inr ⟨⟨hle.trans hgeneration, deadline, ?_⟩, hnot⟩
      rw [hafter, ← hbefore]

/-! ## Systems -/

namespace AttemptSystem

/-- A policy under which an attempt of the key was made in the store. -/
def Tried (events : List SystemEvent) (store : StoreId) (key : AttemptKey) (policy : AttemptPolicy) : Prop :=
  ∃ e ∈ events, ∃ subject, e.store = store ∧ e.event.request = .tryAdmit subject ∧ subject.key = key ∧
    subject.policy = policy

/-- The policies of all attempts. -/
def triedPolicies (events : List SystemEvent) : Set AttemptPolicy :=
  { policy | ∃ e ∈ events, ∃ subject, e.event.request = .tryAdmit subject ∧ subject.policy = policy }

/-- What holds of a system after some events: every entry is stored under a policy that its key was tried with, and
every lease was granted by an admission, whose receipt stands for it. -/
structure Granted (events : List SystemEvent) (system : AttemptSystem) : Prop where
  unpoisoned : ∀ store, (system store).poisoned = false
  policy : ∀ store key entry, (system store).data.entries.lookup key = some entry →
    Tried events store key entry.policy
  granted : ∀ store key generation deadline,
    (system store).data.leaseOf key = some (generation, deadline) →
    generation ≤ (system store).data.generation ∧
    ∃ first ∈ events, first.store = store ∧ first.event.Admits key ∧
      first.event.response.receipt = some ⟨store, key, generation⟩ ∧
      ∃ policy, Tried events store key policy ∧ deadline = first.event.now.saturatingAdd policy.lease.duration

/-- Nothing is stored in a new system. -/
theorem Granted.new : Granted [] AttemptSystem.new where
  unpoisoned _ := rfl
  policy store key entry h := by simp [AttemptSystem.new, MemoryAttemptLimiter.new, AttemptState.new] at h
  granted store key generation deadline h := by
    simp [AttemptSystem.new, MemoryAttemptLimiter.new, AttemptState.new, AttemptState.leaseOf] at h

variable {capacity : StoreId → ℕ} {system : AttemptSystem} {events : List SystemEvent}

/-- What was tried stays so. -/
theorem Tried.append {store : StoreId} {key : AttemptKey} {policy : AttemptPolicy} (h : Tried events store key policy)
    (later : List SystemEvent) : Tried (events ++ later) store key policy := by
  obtain ⟨e, he, hsubject⟩ := h
  exact ⟨e, List.mem_append_left _ he, hsubject⟩

/-- Without collisions the attempts of a key are made under one policy. -/
theorem Tried.unique {store : StoreId} {key : AttemptKey} {policy : AttemptPolicy} (h : Tried events store key policy)
    {all : List SystemEvent} (hall : events ⊆ all) (hfree : Set.InjOn AttemptPolicy.fingerprint (triedPolicies all))
    {e : SystemEvent} (he : e ∈ all) {subject : AttemptSubject} (hrequest : e.event.request = .tryAdmit subject)
    (hkey : subject.key = key) : subject.policy = policy := by
  obtain ⟨other, hother, tried, -, hrequest', hkey', rfl⟩ := h
  have hfingerprint : subject.policy.fingerprint = tried.policy.fingerprint :=
    congrArg CounterKey.fingerprint (hkey.trans hkey'.symm)
  exact hfree ⟨e, he, subject, hrequest, rfl⟩ ⟨other, hall hother, tried, hrequest', rfl⟩ hfingerprint

/-- A call is a step of its store, and leaves every other store alone. -/
theorem serve_step (capacity : StoreId → ℕ) (hunpoisoned : ∀ store, (system store).poisoned = false) (c : SystemCall) :
    (serve capacity c system).1.store = c.store ∧
    MemoryAttemptLimiter.Served (serve capacity c system).1.event (system c.store)
      ((serve capacity c system).2 c.store) ∧
    (∀ key, AttemptStep c.store key (serve capacity c system).1.event (system c.store).data
      ((serve capacity c system).2 c.store).data) ∧
    ∀ store, store ≠ c.store → (serve capacity c system).2 store = system store := by
  obtain ⟨hserved, hstep⟩ := MemoryAttemptLimiter.serve_attemptStep (hunpoisoned c.store)
    (Prod.mk.eta (p := MemoryAttemptLimiter.serve (capacity c.store) c.store c.call (system c.store))).symm
  refine ⟨rfl, ?_, ?_, fun store hstore => Function.update_of_ne hstore _ _⟩
  · simp only [serve, Function.update_self]
    exact hserved
  · simp only [serve, Function.update_self]
    exact hstep

/-- No call poisons a store. -/
theorem serve_unpoisoned (hunpoisoned : ∀ store, (system store).poisoned = false) (c : SystemCall) :
    ∀ store, ((serve capacity c system).2 store).poisoned = false := by
  obtain ⟨-, hserved, -, hother⟩ := serve_step capacity hunpoisoned c
  intro store
  by_cases hstore : store = c.store
  · rw [hstore]
    exact hserved.unpoisoned
  · rw [hother store hstore]
    exact hunpoisoned store

/-- Every call keeps it. -/
theorem serve_granted (h : Granted events system) (c : SystemCall) :
    Granted (events ++ [(serve capacity c system).1]) (serve capacity c system).2 := by
  obtain ⟨hevent, hserved, hstep, hother⟩ := serve_step capacity h.unpoisoned c
  set e := (serve capacity c system).1 with he
  have hpolicy : ∀ store key entry, ((serve capacity c system).2 store).data.entries.lookup key = some entry →
      Tried (events ++ [e]) store key entry.policy := by
    intro store key entry hentry
    by_cases hstore : store = c.store
    · subst hstore
      rcases (hstep key).policy_eq hentry with ⟨old, hold, heq⟩ | ⟨subject, hrequest, hkey, heq⟩
      · rw [heq]
        exact (h.policy _ key old hold).append _
      · exact ⟨e, List.mem_append_right _ (List.mem_singleton_self e), subject, hevent, hrequest, hkey, heq.symm⟩
    · rw [hother store hstore] at hentry
      exact (h.policy store key entry hentry).append _
  refine ⟨serve_unpoisoned h.unpoisoned c, hpolicy, ?_⟩
  intro store key generation deadline hlease
  by_cases hstore : store = c.store
  · subst hstore
    have hgeneration := hserved.generation_eq
    rcases (hstep key).leaseOf with ⟨hadmits, hreceipt, entry, hentry, hnew⟩ | ⟨-, hkept, -⟩
    · -- the lease of this call
      rw [hnew, Option.some.injEq, Prod.mk.injEq] at hlease
      obtain ⟨rfl, rfl⟩ := hlease
      rw [hadmits.2, if_pos rfl] at hgeneration
      refine ⟨hgeneration.ge, e, List.mem_append_right _ (List.mem_singleton_self e), hevent, hadmits, hreceipt,
        entry.policy, hpolicy _ key entry hentry, rfl⟩
    · obtain ⟨hle, first, hmem, hfirst, hadmits, hreceipt, policy, htried, heq⟩ :=
        h.granted _ key generation deadline (hkept _ hlease)
      exact ⟨hle.trans (by omega), first, List.mem_append_left _ hmem, hfirst, hadmits, hreceipt, policy,
        htried.append _, heq⟩
  · rw [hother store hstore] at hlease ⊢
    obtain ⟨hle, first, hmem, hfirst, hadmits, hreceipt, policy, htried, heq⟩ :=
      h.granted store key generation deadline hlease
    exact ⟨hle, first, List.mem_append_left _ hmem, hfirst, hadmits, hreceipt, policy, htried.append _, heq⟩

/-- **Every lease of a run was granted in it.** -/
theorem run_granted (capacity : StoreId → ℕ) (calls : List SystemCall) :
    Granted (run capacity calls) (after capacity calls) := by
  have hok : ∀ c ∈ calls, True := fun _ _ => trivial
  exact Machine.history_inv Granted (fun c _ _ _ h => serve_granted h c) Granted.new hok

/-- A receipt is fenced in its store. -/
def FencedOff (receipt : MemoryAttemptReceipt) (system : AttemptSystem) : Prop :=
  (∀ store, (system store).poisoned = false) ∧ Fenced receipt (system receipt.store).data

/-- A receipt that is fenced off stays so under calls of any store. -/
theorem FencedOff.step (h : FencedOff receipt system) (c : SystemCall) :
    FencedOff receipt (serve capacity c system).2 := by
  obtain ⟨-, hserved, hstep, hother⟩ := serve_step capacity h.1 c
  refine ⟨serve_unpoisoned h.1 c, ?_⟩
  by_cases hstore : receipt.store = c.store
  · have hfenced := h.2
    rw [hstore] at hfenced ⊢
    exact hfenced.step (hstep receipt.key) (by have := hserved.generation_eq; omega)
  · rw [hother _ hstore]
    exact h.2

/-- A completion that is applied is made in the store of its receipt, before the deadline of the
lease, which it ends. -/
theorem completes_cases (hunpoisoned : ∀ store, (system store).poisoned = false) {c : SystemCall}
    {outcome : AttemptOutcome} (h : (serve capacity c system).1.event.Completes receipt outcome) :
    receipt.store = c.store ∧
      ((serve capacity c system).2 receipt.store).data.leaseOf receipt.key = none ∧
      ∃ deadline, (system receipt.store).data.leaseOf receipt.key = some (receipt.generation, deadline) ∧
        (serve capacity c system).1.event.now < deadline := by
  obtain ⟨-, -, hstep, -⟩ := serve_step capacity hunpoisoned c
  rcases (hstep receipt.key).leaseOf with ⟨hadmits, -⟩ | ⟨-, -, happlied⟩
  · exact absurd h (hadmits.not_completes outcome)
  · obtain ⟨hstore, hnone, hlease⟩ := happlied receipt outcome rfl h
    rw [hstore]
    exact ⟨rfl, hnone, hlease⟩

/-- A receipt is fenced, or held and its key was not admitted since. -/
def Excludes (receipt : MemoryAttemptReceipt) (events : List SystemEvent) (system : AttemptSystem) : Prop :=
  (∀ store, (system store).poisoned = false) ∧
    (Fenced receipt (system receipt.store).data ∨
      (Held receipt (system receipt.store).data ∧
        ∀ e ∈ events, e.store = receipt.store → ¬ e.event.Admits receipt.key))

/-- A call of any store keeps it. -/
theorem Excludes.step (h : Excludes receipt events system) (c : SystemCall) :
    Excludes receipt (events ++ [(serve capacity c system).1]) (serve capacity c system).2 := by
  obtain ⟨hevent, hserved, hstep, hother⟩ := serve_step capacity h.1 c
  have hgeneration := hserved.generation_eq
  refine ⟨serve_unpoisoned h.1 c, ?_⟩
  rcases h.2 with hfenced | ⟨hheld, hevents⟩
  · exact Or.inl (FencedOff.step ⟨h.1, hfenced⟩ c).2
  · by_cases hstore : receipt.store = c.store
    · rw [hstore] at hheld hevents ⊢
      rcases hheld.step (hstep receipt.key) (by omega) with hfenced | ⟨hheld', hnot⟩
      · exact Or.inl hfenced
      · refine Or.inr ⟨hheld', ?_⟩
        intro e he
        rcases List.mem_append.1 he with he | he
        · exact hevents e he
        · rw [List.mem_singleton.1 he]
          exact fun _ => hnot
    · -- a call of another store neither fences the receipt nor admits its key here
      rw [hother _ hstore]
      refine Or.inr ⟨hheld, ?_⟩
      intro e he
      rcases List.mem_append.1 he with he | he
      · exact hevents e he
      · rw [List.mem_singleton.1 he, hevent]
        exact fun heq => absurd heq.symm hstore

/-- And so does a run. -/
theorem Excludes.run (capacity : StoreId → ℕ) (h : Excludes receipt [] system) (calls : List SystemCall) :
    Excludes receipt (Machine.outputs (serve capacity) system calls)
      (Machine.final (serve capacity) system calls) := by
  have hok : ∀ c ∈ calls, True := fun _ _ => trivial
  exact Machine.history_inv (Excludes receipt) (fun c _ _ _ h => h.step c) h hok

/-- And so over a run. -/
theorem FencedOff.run (capacity : StoreId → ℕ) (h : FencedOff receipt system) (calls : List SystemCall) :
    FencedOff receipt (Machine.final (serve capacity) system calls) := by
  have hok : ∀ c ∈ calls, True := fun _ _ => trivial
  exact Machine.final_inv (fun c _ _ h => h.step c) h hok

/-- No completion is applied by a receipt that is fenced off. -/
theorem FencedOff.not_completes (capacity : StoreId → ℕ) (h : FencedOff receipt system) (c : SystemCall)
    (outcome : AttemptOutcome) : ¬ (serve capacity c system).1.event.Completes receipt outcome := by
  intro hcompletes
  obtain ⟨-, -, deadline, hlease, -⟩ := completes_cases h.1 hcompletes
  exact h.2.2 _ hlease rfl

/-- The receipt of an admission is held after it. -/
theorem held_of_admits (hunpoisoned : ∀ store, (system store).poisoned = false) {c : SystemCall}
    (h : (serve capacity c system).1.event.response.receipt = some receipt) :
    receipt.store = c.store ∧ Held receipt ((serve capacity c system).2 receipt.store).data := by
  obtain ⟨-, hserved, hstep, -⟩ := serve_step capacity hunpoisoned c
  have hgeneration := hserved.generation_eq
  have hadmits : (serve capacity c system).1.event.Admits (serve capacity c system).1.event.request.key :=
    ⟨rfl, by rw [h]; rfl⟩
  rcases (hstep (serve capacity c system).1.event.request.key).leaseOf with
    ⟨-, hreceipt, entry, -, hlease⟩ | ⟨hnot, -⟩
  · rw [h, Option.some.injEq] at hreceipt
    rw [h, Option.isSome_some, if_pos rfl] at hgeneration
    rw [hreceipt]
    exact ⟨rfl, hgeneration.ge, _, hlease⟩
  · -- the event does admit its key
    exact absurd hadmits hnot

/-- A completion that is applied fences off its receipt. -/
theorem fenced_of_completes (h : Granted events system) {c : SystemCall} {outcome : AttemptOutcome}
    (hcompletes : (serve capacity c system).1.event.Completes receipt outcome) :
    FencedOff receipt (serve capacity c system).2 := by
  obtain ⟨-, hserved, -, -⟩ := serve_step capacity h.unpoisoned c
  have hgeneration := hserved.generation_eq
  obtain ⟨hstore, hnone, deadline, hlease, -⟩ := completes_cases h.unpoisoned hcompletes
  have hle := (h.granted _ _ _ _ hlease).1
  refine ⟨serve_unpoisoned h.unpoisoned c, ?_, ?_⟩
  · rw [hstore] at hle ⊢
    omega
  · rw [hnone]
    intro lease hmem
    cases hmem

/-- A completion in a store either is applied, or is stale and changes only the clock. -/
theorem complete_stale (hunpoisoned : ∀ store, (system store).poisoned = false) {c : SystemCall}
    {receipt : MemoryAttemptReceipt} {outcome : AttemptOutcome}
    (h : c.call.request = .complete receipt outcome) :
    (serve capacity c system).1.event.Completes receipt outcome ∨
      ((serve capacity c system).1.event.response = .complete (.returned (.ok .stale)) ∧
        (serve capacity c system).2 = Function.update system c.store
          ⟨{ (system c.store).data with now := max (system c.store).data.now c.call.reading }, false⟩) := by
  obtain ⟨store, reading, request⟩ := c
  simp only at h
  subst h
  have hpoisoned := hunpoisoned store
  cases hs : system store with
  | mk data poisoned =>
  rw [hs] at hpoisoned
  simp only at hpoisoned
  subst hpoisoned
  have hserve : ∀ result data', MemoryAttemptLimiter.completeLocked store reading receipt outcome data =
        .ok (result, data') →
      serve capacity ⟨store, reading, .complete receipt outcome⟩ system =
        (⟨store, max data.now reading, .complete receipt outcome, .complete (.returned (.ok result))⟩,
          Function.update system store ⟨data', false⟩) := by
    intro result data' hcomplete
    unfold serve
    simp only [hs, MemoryAttemptLimiter.serve_complete hcomplete]
  rcases MemoryAttemptLimiter.completeLocked_cases store reading receipt outcome data with
    ⟨hstore, entry, hentry, hholds⟩ | ⟨-, hstale⟩
  · refine Or.inl ?_
    by_cases houtcome : outcome = .success
    · subst houtcome
      rw [hserve _ _ (MemoryAttemptLimiter.completeLocked_success hstore hentry hholds)]
      exact ⟨rfl, rfl⟩
    · obtain ⟨done, hcomplete, -⟩ :=
        MemoryAttemptLimiter.completeLocked_failure houtcome hstore hentry hholds
      rw [hserve _ _ hcomplete]
      exact ⟨rfl, rfl⟩
  · rw [hserve _ _ hstale]
    exact Or.inr ⟨rfl, rfl⟩

end AttemptSystem

/-! ## Every interleaving -/

/-- **Exclusive reservations, fenced completions.** In every run of any number of stores:
between an admission and the completion that its receipt applies no attempt of the key is
admitted in the store; a completion is applied only in the store of its receipt, which an earlier
admission there returned, and before the deadline of that admission's lease, under the policy that the
key's attempts have brought to the entry: the admission's own, where no two policies of the run share a
fingerprint; no receipt is applied twice; and every other completion is stale and changes nothing but
the stored clock. -/
theorem attempts_exclusive_fenced (capacity : StoreId → ℕ) (calls : List SystemCall) :
    (∀ before first between last after,
      AttemptSystem.run capacity calls = before ++ first :: (between ++ last :: after) →
      ∀ receipt outcome, first.event.response.receipt = some receipt →
        last.event.Completes receipt outcome →
        ∀ e ∈ between, e.store = first.store → ¬ e.event.Admits receipt.key) ∧
    (∀ before last after, AttemptSystem.run capacity calls = before ++ last :: after →
      ∀ receipt outcome, last.event.Completes receipt outcome →
        receipt.store = last.store ∧
        ∃ first ∈ before, first.store = last.store ∧ first.event.response.receipt = some receipt ∧
          ∃ policy, AttemptSystem.Tried before last.store receipt.key policy ∧
            last.event.now < first.event.now.saturatingAdd policy.lease.duration ∧
            (Set.InjOn AttemptPolicy.fingerprint (AttemptSystem.triedPolicies (AttemptSystem.run capacity calls)) →
              ∀ subject, first.event.request = .tryAdmit subject → subject.policy = policy)) ∧
    (∀ before first between last after,
      AttemptSystem.run capacity calls = before ++ first :: (between ++ last :: after) →
      ∀ receipt outcome outcome', first.event.Completes receipt outcome →
        ¬ last.event.Completes receipt outcome') ∧
    (∀ before c after receipt outcome, calls = before ++ c :: after →
      c.call.request = .complete receipt outcome →
      (AttemptSystem.serve capacity c (AttemptSystem.after capacity before)).1.event.Completes receipt outcome ∨
        ((AttemptSystem.serve capacity c (AttemptSystem.after capacity before)).1.event.response =
            .complete (.returned (.ok .stale)) ∧
          (AttemptSystem.serve capacity c (AttemptSystem.after capacity before)).2 =
            Function.update (AttemptSystem.after capacity before) c.store
              ⟨{ (AttemptSystem.after capacity before c.store).data with
                now := max (AttemptSystem.after capacity before c.store).data.now c.call.reading }, false⟩)) := by
  refine ⟨?_, ?_, ?_, ?_⟩
  · intro before first between last after hrun receipt outcome hfirst hlast e he hstore
    obtain ⟨cs, c, cs', -, -, rfl, hrest⟩ := Machine.outputs_eq_append_cons hrun
    obtain ⟨ds, d, ds', -, rfl, rfl, -⟩ := Machine.outputs_eq_append_cons hrest
    have hgranted := AttemptSystem.run_granted capacity cs
    obtain ⟨hreceipt, hheld⟩ := AttemptSystem.held_of_admits hgranted.unpoisoned hfirst
    have hexcludes := AttemptSystem.Excludes.run capacity
      ⟨AttemptSystem.serve_unpoisoned hgranted.unpoisoned c, Or.inr ⟨hheld, by simp⟩⟩ ds
    rcases hexcludes.2 with hfenced | ⟨-, hevents⟩
    · exact absurd hlast (AttemptSystem.FencedOff.not_completes capacity ⟨hexcludes.1, hfenced⟩ d outcome)
    · exact hevents e he (hstore.trans hreceipt.symm)
  · intro before last after hrun receipt outcome hlast
    obtain ⟨cs, c, cs', hcalls, rfl, rfl, -⟩ := Machine.outputs_eq_append_cons hrun
    have hgranted := AttemptSystem.run_granted capacity cs
    obtain ⟨hstore, -, deadline, hlease, hlt⟩ := AttemptSystem.completes_cases hgranted.unpoisoned hlast
    obtain ⟨-, first, hmem, hfirst, hadmits, hreceipt, policy, htried, rfl⟩ := hgranted.granted _ _ _ _ hlease
    have htried' := htried
    rw [hstore] at htried'
    refine ⟨hstore, first, hmem, hfirst.trans hstore, hreceipt, policy, htried', hlt, ?_⟩
    intro hfree subject hrequest
    have hall : AttemptSystem.run capacity cs ⊆ AttemptSystem.run capacity calls := by
      unfold AttemptSystem.run
      rw [hcalls, Machine.outputs_append]
      exact List.subset_append_left _ _
    have hkey : subject.key = receipt.key := by
      have hrequested := hadmits.1
      rw [hrequest] at hrequested
      exact hrequested
    exact htried.unique hall hfree (hall hmem) hrequest hkey
  · intro before first between last after hrun receipt outcome outcome' hfirst
    obtain ⟨cs, c, cs', -, -, rfl, hrest⟩ := Machine.outputs_eq_append_cons hrun
    obtain ⟨ds, d, ds', -, -, rfl, -⟩ := Machine.outputs_eq_append_cons hrest
    have hfenced := AttemptSystem.fenced_of_completes (AttemptSystem.run_granted capacity cs) hfirst
    exact (hfenced.run capacity ds).not_completes capacity d outcome'
  · intro before c after receipt outcome _ hrequest
    exact AttemptSystem.complete_stale (AttemptSystem.run_granted capacity before).unpoisoned hrequest

end Runlimit
