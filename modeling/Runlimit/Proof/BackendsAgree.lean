import Runlimit.Proof.AttemptRows

/-!
# The attempt backends agree

Both backends stand for the eager machine of each key: the entry of the memory limiter by `Tracked`, the row by
`PgShows`. They keep different states for it, and clean up different keys; but what a call answers is a function of
the state of the machine that is due, and so is what it leaves (`Paired.served`).
-/

namespace Runlimit

open PgAttempts

section Agreement

variable [Sha2] {known : Set AttemptPolicy} {policy : AttemptPolicy} {store : StoreId} {key : AttemptKey}
  {used : List LeaseToken} {nowMs : ℕ} {events : List AttemptEvent} {b : Backends}

/-- What holds of one key in both backends, after the events of the memory limiter. -/
structure Coupled (policy : AttemptPolicy) (store : StoreId) (key : AttemptKey) (nowMs : ℕ) (events : List AttemptEvent)
    (b : Backends) : Prop where
  tracked : Tracked policy store key events b.memory
  clock : b.memory.data.now.nanos = nanosOf nowMs
  shows : ∃ raw, PgShows policy b.receipts nowMs (b.rows.lookup key) raw ∧
    raw.elapse policy (nanosOf nowMs) = (Eager.after policy store key events).key

/-- What holds of both backends; `used` are the tokens so far. -/
structure Paired (known : Set AttemptPolicy) (store : StoreId) (used : List LeaseToken) (nowMs : ℕ)
    (events : List AttemptEvent) (b : Backends) : Prop where
  distinct : Distinct b.receipts
  receipts : ∀ pair ∈ b.receipts, pair.1.store = store ∧ pair.1.key = pair.2.key ∧
    pair.1.generation ≤ b.memory.data.generation ∧ pair.2.policy ∈ known ∧ pair.2.token ∈ used
  storable : ∀ key row, b.rows.lookup key = some row → row.storable = true
  coupled : ∀ policy ∈ known, ∀ subject, Coupled policy store ⟨policy.fingerprint, subject⟩ nowMs events b

theorem paired_new (known : Set AttemptPolicy) (store : StoreId) : Paired known store [] 0 [] Backends.new := by
  have hempty : ∀ key, Backends.new.rows.lookup key = none := fun _ => Finmap.lookup_empty _
  refine ⟨⟨nofun, nofun⟩, nofun, ?_, fun policy hpolicy subject => ⟨Tracked.new _ _ _, rfl, .initial, ?_, rfl⟩⟩
  · intro key row hrow
    rw [hempty] at hrow
    cases hrow
  · rw [hempty]
    exact .absent

omit [Sha2] in
/-- A time of the run, for the memory limiter. -/
theorem unsaturated_millis (h : nowMs < 2 ^ 62) :
    (Duration.fromMillis nowMs).nanos = nanosOf nowMs ∧ Unsaturated (Duration.fromMillis nowMs) := by
  have hexact : (Duration.fromMillis nowMs).nanos = nanosOf nowMs := by
    refine Nat.min_eq_left ?_
    have hmax : 2 ^ 62 * 10 ^ 6 ≤ maxNanos := by decide
    exact (Nat.mul_le_mul_right _ h.le).trans hmax
  refine ⟨hexact, ?_⟩
  have hmax : 2 ^ 62 * 10 ^ 6 + 2 * QuotaPeriod.maxPeriodNanos ≤ maxNanos := by decide
  have hle : nanosOf nowMs ≤ 2 ^ 62 * 10 ^ 6 := Nat.mul_le_mul_right _ h.le
  unfold Unsaturated
  rw [hexact]
  exact (Nat.add_le_add_right hle _).trans hmax

omit [Sha2] in
/-- A response of the memory limiter that is not about storage. -/
theorem not_unavailable {result : AttemptAdmission MemoryAttemptReceipt} (h : result ≠ .denied .storageCapacity) :
    ¬(AttemptResponse.tryAdmit (.returned (.ok result))).Unavailable := by
  rintro (heq | heq)
  · cases heq
    exact h rfl
  · cases heq

/-- A call of the memory limiter, for one key. -/
theorem Coupled.memory (h : Coupled policy store key nowMs events b) {callMs : ℕ} (hle : nowMs ≤ callMs)
    (hmax : callMs < 2 ^ 62) {request : AttemptRequest} (capacity : ℕ)
    (hpolicy : ∀ subject, request = .tryAdmit subject → subject.key = key → subject.policy = policy)
    {event : AttemptEvent} {state : Mutex AttemptState}
    (hserve : MemoryAttemptLimiter.serve capacity store ⟨Duration.fromMillis callMs, request⟩ b.memory =
      (event, state)) :
    event.now.nanos = nanosOf callMs ∧ state.data.now.nanos = nanosOf callMs ∧
      (event.request.key = key → (Eager.after policy store key events).Answers policy store key event) ∧
      Tracked policy store key (events ++ [event]) state ∧
      state.data.generation = b.memory.data.generation + if event.response.receipt.isSome then 1 else 0 := by
  obtain ⟨hexact, hunsaturated⟩ := unsaturated_millis hmax
  have hbrings : Brings policy key ⟨Duration.fromMillis callMs, request⟩ := ⟨hunsaturated, hpolicy⟩
  obtain ⟨hanswers, htracked⟩ := h.tracked.step capacity hbrings
  obtain ⟨hserved, -⟩ := MemoryAttemptLimiter.serve_attemptStep h.tracked.unpoisoned hserve
  rw [hserve] at hanswers htracked
  have hnow : event.now = Duration.fromMillis callMs := by
    have hevent : event.now = max b.memory.data.now (Duration.fromMillis callMs) :=
      (congrArg (fun served => served.1.now) hserve).symm
    -- the clock of the calls does not go back, so the reading is the time
    have hpast : b.memory.data.now ≤ Duration.fromMillis callMs := by
      change b.memory.data.now.nanos ≤ (Duration.fromMillis callMs).nanos
      rw [h.clock, hexact]
      exact nanosOf_le.2 hle
    rw [hevent, max_eq_right hpast]
  refine ⟨?_, ?_, hanswers, htracked, hserved.generation_eq⟩
  · rw [hnow, hexact]
  · rw [hserved.now_eq, hnow, hexact]

/-- The state of the machine that is due at a call. -/
theorem Coupled.due (h : Coupled policy store key nowMs events b) {callMs : ℕ} (hle : nowMs ≤ callMs)
    {event : AttemptEvent} (hnow : event.now.nanos = nanosOf callMs) :
    ∃ raw, PgShows policy b.receipts callMs (b.rows.lookup key) raw ∧
      raw.elapse policy (nanosOf callMs) = (Eager.after policy store key events).due policy event := by
  obtain ⟨raw, hraw, helapse⟩ := h.shows
  refine ⟨raw, hraw.mono hle (List.Subset.refl _), ?_⟩
  unfold Eager.due
  rw [← helapse, hnow, EagerKey.elapse_elapse (nanosOf_le.2 hle)]

/-- A key that a call is not about. -/
theorem Coupled.spared (h : Coupled policy store key nowMs events b) {callMs : ℕ} (hle : nowMs ≤ callMs)
    {event : AttemptEvent} {b' : Backends} (hnow : event.now.nanos = nanosOf callMs) (hother : event.request.key ≠ key)
    (htracked : Tracked policy store key (events ++ [event]) b'.memory)
    (hclock : b'.memory.data.now.nanos = nanosOf callMs) (hreceipts : b.receipts ⊆ b'.receipts)
    (hcleaned : RowCleaned callMs (b.rows.lookup key) (b'.rows.lookup key)) :
    Coupled policy store key callMs (events ++ [event]) b' := by
  obtain ⟨raw, hraw, hdue⟩ := h.due hle hnow
  obtain ⟨raw', hraw', helapse⟩ := hraw.cleaned hcleaned
  refine ⟨htracked, hclock, raw', hraw'.mono le_rfl hreceipts, ?_⟩
  rw [helapse, hdue, Eager.after_snoc, observe_key_of_not fun hcond => hother hcond.1]

/-! ## A call -/

/-- Nothing changes for the keys that an admission is not about. -/
theorem tryAdmit_rowCleaned {config : PostgresConfig} {run : AdmitRun} {subject : AttemptSubject} {rows rows' : AttemptRows}
    {result : AttemptAdmission PgAttemptReceipt} (h : tryAdmit config run subject rows = (.ok result, rows'))
    (hserved : result ≠ .denied .storageCapacity) (hne : key ≠ subject.key) :
    RowCleaned run.sweep.sampledAtMs (rows.lookup key) (rows'.lookup key) := by
  rcases tryAdmit_cases h hserved with ⟨-, -, -, -, -, rfl⟩ | ⟨written, -, -, rfl, -⟩
  · exact Or.inl rfl
  · rw [Finmap.lookup_insert_if, if_neg hne]
    exact cleanup_rowCleaned

/-- A receipt that both backends have just given. -/
theorem Paired.granted (h : Paired known store used nowMs events b) {receipt : MemoryAttemptReceipt}
    {pgReceipt : PgAttemptReceipt} (hgeneration : b.memory.data.generation < receipt.generation)
    (htoken : pgReceipt.token ∉ used) : Distinct (b.receipts ++ [(receipt, pgReceipt)]) := by
  -- a generation above the last, and a token that was not used
  have hnew : ∀ pair ∈ b.receipts, pair.1.generation ≠ receipt.generation ∧ pair.2.token ≠ pgReceipt.token := by
    intro pair hpair
    obtain ⟨-, -, hle, -, hused⟩ := h.receipts pair hpair
    exact ⟨by omega, fun heq => htoken (heq ▸ hused)⟩
  constructor
  · intro p hp q hq heq
    rcases List.mem_append.1 hp with hp | hp
    · rcases List.mem_append.1 hq with hq | hq
      · exact h.distinct.generations p hp q hq heq
      · rw [List.mem_singleton.1 hq] at heq
        exact absurd heq (hnew p hp).1
    · rcases List.mem_append.1 hq with hq | hq
      · rw [List.mem_singleton.1 hp] at heq
        exact absurd heq.symm (hnew q hq).1
      · rw [List.mem_singleton.1 hp, List.mem_singleton.1 hq]
  · intro p hp q hq heq
    rcases List.mem_append.1 hp with hp | hp
    · rcases List.mem_append.1 hq with hq | hq
      · exact h.distinct.tokens p hp q hq heq
      · rw [List.mem_singleton.1 hq] at heq
        exact absurd heq (hnew p hp).2
    · rcases List.mem_append.1 hq with hq | hq
      · rw [List.mem_singleton.1 hp] at heq
        exact absurd heq.symm (hnew q hq).2
      · rw [List.mem_singleton.1 hp, List.mem_singleton.1 hq]

/-- **An admission is answered alike.** -/
theorem Paired.tryAdmit (h : Paired known store used nowMs events b)
    (hfree : Set.InjOn Sha2.sha256 (AttemptPolicy.preimage '' known)) {callMs : ℕ} (hle : nowMs ≤ callMs)
    (hmax : callMs < 2 ^ 62) (capacity : ℕ) {config : PostgresConfig} {subject : AttemptSubject} {sweep : Sweep}
    {token : LeaseToken} (hsubject : subject.policy ∈ known) (hsampled : sweep.sampledAtMs ≤ callMs)
    (hfresh : token ∉ used) {event : AttemptEvent} {state : Mutex AttemptState}
    {memory : AttemptAdmission MemoryAttemptReceipt} {postgres : AttemptAdmission PgAttemptReceipt} {rows : AttemptRows}
    (hserve : MemoryAttemptLimiter.serve capacity store ⟨Duration.fromMillis callMs, .tryAdmit subject⟩ b.memory =
      (event, state)) (hevent : event = ⟨event.now, .tryAdmit subject, .tryAdmit (.returned (.ok memory))⟩)
    (hpostgres : PgAttempts.tryAdmit config ⟨sweep, callMs, token⟩ subject b.rows = (.ok postgres, rows))
    (hmemory : memory ≠ .denied .storageCapacity) (hpg : postgres ≠ .denied .storageCapacity) :
    PairedResponse.Agrees ⟨.tryAdmit (.returned (.ok memory)), .tryAdmit (.ok postgres)⟩ ∧
      Paired known store (token :: used) callMs (events ++ [event]) ⟨state, rows, b.receipts ++
        (Backends.granted ⟨.tryAdmit (.returned (.ok memory)), .tryAdmit (.ok postgres)⟩).toList⟩ := by
  have hrequest : event.request = .tryAdmit subject := congrArg AttemptEvent.request hevent
  have hresponse : event.response = .tryAdmit (.returned (.ok memory)) := congrArg AttemptEvent.response hevent
  have havailable : ¬event.response.Unavailable := hresponse ▸ not_unavailable hmemory
  have hkeyed : event.request.key = subject.key := by
    rw [hrequest]
    rfl
  have hcalled : ∀ policy ∈ known, ∀ key : SubjectKey, _ := fun policy hpolicy key =>
    (h.coupled policy hpolicy key).memory hle hmax capacity (fun other hother hkey => by
      cases hother
      exact policy_of_key hfree hpolicy hsubject hkey) hserve
  have hself : Coupled subject.policy store subject.key nowMs events b := h.coupled subject.policy hsubject subject.subject
  obtain ⟨hnow, hclock, hanswers, -, hgeneration⟩ := hcalled subject.policy hsubject subject.subject
  obtain ⟨raw, hraw, hdue⟩ := hself.due hle hnow
  -- what the memory limiter answers is what the machine does
  have hmachine : memory = (((Eager.after subject.policy store subject.key events).due subject.policy event).tryAdmit
      subject.policy (nanosOf callMs) ((Eager.after subject.policy store subject.key events).receipt store
        subject.key)).1 := by
    have hanswer := hanswers hkeyed
    unfold Eager.Answers at hanswer
    rw [hrequest] at hanswer
    rcases hanswer with hnot | hanswer
    · exact absurd hnot havailable
    · rw [hresponse, hnow] at hanswer
      cases hanswer
      rfl
  have hissued : b.memory.data.generation = (Eager.after subject.policy store subject.key events).issued :=
    hself.tracked.simulates.issued
  -- the other keys at most lose a quiet entry on either side
  have hother : ∀ {receipts : List (MemoryAttemptReceipt × PgAttemptReceipt)}, b.receipts ⊆ receipts →
      ∀ policy ∈ known, ∀ key : SubjectKey, subject.key ≠ ⟨policy.fingerprint, key⟩ →
        Coupled policy store ⟨policy.fingerprint, key⟩ callMs (events ++ [event]) ⟨state, rows, receipts⟩ := by
    intro receipts hreceipts policy hpolicy key hne
    obtain ⟨-, -, -, htracked, -⟩ := hcalled policy hpolicy key
    refine (h.coupled policy hpolicy key).spared hle hnow (hkeyed ▸ hne) htracked hclock hreceipts ?_
    exact (tryAdmit_rowCleaned hpostgres hpg (Ne.symm hne)).mono hsampled
  have hsame : ∀ policy ∈ known, ∀ key : SubjectKey, subject.key = ⟨policy.fingerprint, key⟩ → subject.policy = policy :=
    fun policy hpolicy key hkey => policy_of_key hfree hpolicy hsubject hkey
  have hobserve := observe_key_tryAdmit subject.policy store (Eager.after subject.policy store subject.key events)
    hrequest rfl havailable
  rcases hraw.admission rfl hsampled hmax hpostgres hpg ((Eager.after subject.policy store subject.key events).receipt
      store subject.key) with ⟨denial, rfl, rfl, hdenied⟩ | ⟨n, written, rfl, hstorable, rfl, hshows, hadmitted⟩
  · rw [hdue] at hdenied
    rw [hdenied] at hmachine
    -- both deny: the machine is where it was, seen at a later time
    subst hmachine
    refine ⟨rfl, ?_⟩
    change Paired known store (token :: used) callMs (events ++ [event]) ⟨state, b.rows, b.receipts ++ []⟩
    rw [List.append_nil]
    refine ⟨h.distinct, fun pair hpair => ?_, h.storable, fun policy hpolicy key => ?_⟩
    · obtain ⟨hstore, hkey, hle', hknown, hused⟩ := h.receipts pair hpair
      exact ⟨hstore, hkey, hle'.trans (hgeneration ▸ Nat.le_add_right _ _), hknown, List.mem_cons_of_mem _ hused⟩
    · by_cases hkey : subject.key = ⟨policy.fingerprint, key⟩
      · obtain rfl := hsame policy hpolicy key hkey
        obtain ⟨-, -, -, htracked, -⟩ := hcalled subject.policy hsubject key
        rw [← hkey] at htracked ⊢
        refine ⟨htracked, hclock, raw, hraw, ?_⟩
        rw [Eager.after_snoc, hobserve, hnow, hdenied]
        exact hdue
      · exact hother (List.Subset.refl _) policy hpolicy key hkey
  · rw [hdue] at hadmitted
    rw [hadmitted] at hmachine
    subst hmachine
    refine ⟨trivial, ?_⟩
    -- both admit: the machine is leased, and the two receipts are a new pair
    have hgrown : state.data.generation = b.memory.data.generation + 1 := by
      rw [hgeneration, hresponse]
      rfl
    have hgeneration' : b.memory.data.generation <
        ((Eager.after subject.policy store subject.key events).receipt store subject.key).generation := by
      rw [hissued]
      exact Nat.lt_succ_self _
    refine ⟨h.granted hgeneration' hfresh, fun pair hpair => ?_, fun key row hrow => ?_, fun policy hpolicy key => ?_⟩
    · rcases List.mem_append.1 hpair with hold | hnew
      · obtain ⟨hstore, hkey, hle', hknown, hused⟩ := h.receipts pair hold
        refine ⟨hstore, hkey, ?_, hknown, List.mem_cons_of_mem _ hused⟩
        change _ ≤ state.data.generation
        omega
      · rw [List.mem_singleton.1 hnew]
        refine ⟨rfl, rfl, ?_, hsubject, List.mem_cons_self⟩
        change (Eager.after subject.policy store subject.key events).issued + 1 ≤ state.data.generation
        omega
    · change ((cleanup sweep (capacityShard subject.key) b.rows).insert subject.key written).lookup key = some row at hrow
      rw [Finmap.lookup_insert_if] at hrow
      split at hrow
      · cases hrow
        exact hstorable
      · rw [lookup_cleanup] at hrow
        split at hrow
        · cases hrow
        · exact h.storable key row hrow
    · by_cases hkey : subject.key = ⟨policy.fingerprint, key⟩
      · obtain rfl := hsame policy hpolicy key hkey
        obtain ⟨-, -, -, htracked, -⟩ := hcalled subject.policy hsubject key
        rw [← hkey] at htracked ⊢
        refine ⟨htracked, hclock, .leased n ((Eager.after subject.policy store subject.key events).receipt store
          subject.key).generation (nanosOf (callMs + subject.policy.lease.millis)), ?_, ?_⟩
        · change PgShows _ _ _ (((cleanup sweep (capacityShard subject.key) b.rows).insert subject.key written).lookup
            subject.key) _
          rw [Finmap.lookup_insert]
          exact hshows
        · rw [Eager.after_snoc, hobserve, hnow, hadmitted]
          exact EagerKey.elapse_leased_of_lt (nanosOf_lt.2 (Nat.lt_add_of_pos_right subject.policy.lease.pos))
      · exact hother (List.subset_append_left _ _) policy hpolicy key hkey

/-- **A completion is answered alike.** -/
theorem Paired.complete (h : Paired known store used nowMs events b)
    (hfree : Set.InjOn Sha2.sha256 (AttemptPolicy.preimage '' known)) {callMs : ℕ} (hle : nowMs ≤ callMs)
    (hmax : callMs < 2 ^ 62) (capacity : ℕ) {pair : MemoryAttemptReceipt × PgAttemptReceipt} (hpair : pair ∈ b.receipts)
    {outcome : AttemptOutcome} {event : AttemptEvent} {state : Mutex AttemptState} {memory : AttemptCompletionResult}
    (hserve : MemoryAttemptLimiter.serve capacity store ⟨Duration.fromMillis callMs, .complete pair.1 outcome⟩ b.memory =
      (event, state)) (hevent : event = ⟨event.now, .complete pair.1 outcome, .complete (.returned (.ok memory))⟩) :
    (PgAttempts.complete callMs pair.2 outcome b.rows).1 = .ok memory ∧
      Paired known store used callMs (events ++ [event])
        ⟨state, (PgAttempts.complete callMs pair.2 outcome b.rows).2, b.receipts⟩ := by
  obtain ⟨hstore, hkey, -, hknown, -⟩ := h.receipts pair hpair
  have hrequest : event.request = .complete pair.1 outcome := congrArg AttemptEvent.request hevent
  have hresponse : event.response = .complete (.returned (.ok memory)) := congrArg AttemptEvent.response hevent
  have havailable : ¬event.response.Unavailable := by
    rw [hresponse]
    rintro (heq | heq)
    · cases heq
    · cases heq
  have hkeyed : event.request.key = pair.2.key := by
    rw [hrequest]
    exact hkey
  have hcalled : ∀ policy ∈ known, ∀ key : SubjectKey, _ := fun policy hpolicy key =>
    (h.coupled policy hpolicy key).memory hle hmax capacity (fun _ hother => by cases hother) hserve
  have hself : Coupled pair.2.policy store pair.2.key nowMs events b := h.coupled pair.2.policy hknown pair.2.subject
  obtain ⟨hnow, hclock, hanswers, -, hgeneration⟩ := hcalled pair.2.policy hknown pair.2.subject
  obtain ⟨raw, hraw, hdue⟩ := hself.due hle hnow
  obtain ⟨hanswer, ⟨raw', hraw', helapse⟩, hothers, hstorable⟩ :=
    hraw.complete h.distinct hpair hstore rfl h.storable hmax outcome
  rw [hdue] at hanswer helapse
  -- what the memory limiter answers is what the machine does
  have hmachine : memory = (((Eager.after pair.2.policy store pair.2.key events).due pair.2.policy event).complete
      pair.2.policy (nanosOf callMs) store pair.1 outcome).1 := by
    have hanswer := hanswers hkeyed
    unfold Eager.Answers at hanswer
    rw [hrequest] at hanswer
    change event.response = _ at hanswer
    rw [hresponse, hnow] at hanswer
    cases hanswer
    rfl
  refine ⟨hanswer.trans (congrArg Except.ok hmachine.symm), h.distinct, fun other hother => ?_, hstorable,
    fun policy hpolicy key => ?_⟩
  · obtain ⟨hstore', hkey', hle', hrest⟩ := h.receipts other hother
    exact ⟨hstore', hkey', hle'.trans (hgeneration ▸ Nat.le_add_right _ _), hrest⟩
  · obtain ⟨-, -, -, htracked, -⟩ := hcalled policy hpolicy key
    by_cases hsame : pair.2.key = ⟨policy.fingerprint, key⟩
    · have hnamed : AttemptSubject.key ⟨pair.2.policy, pair.2.subject⟩ = ⟨policy.fingerprint, key⟩ := hsame
      obtain rfl : pair.2.policy = policy := policy_of_key hfree hpolicy hknown hnamed
      rw [← hsame] at htracked ⊢
      refine ⟨htracked, hclock, raw', hraw', ?_⟩
      rw [Eager.after_snoc, observe_key_complete pair.2.policy store _ hrequest hkey havailable, hnow]
      exact helapse
    · refine (h.coupled policy hpolicy key).spared hle hnow (hkeyed ▸ hsame) htracked hclock (List.Subset.refl _) ?_
      exact Or.inl (hothers _ (Ne.symm hsame))

/-! ## Runs -/

omit [Sha2] in
/-- The denial that is left out. -/
theorem AttemptAdmission.full_iff {R : Type} {admission : AttemptAdmission R} :
    admission.full = true ↔ admission = .denied .storageCapacity := by
  unfold AttemptAdmission.full
  split
  · simp
  · rename_i hnot
    refine ⟨nofun, fun heq => absurd heq ?_⟩
    rintro rfl
    exact hnot rfl

omit [Sha2] in
/-- An admission that both backends have served. -/
theorem PairedResponse.served_tryAdmit {memory : AttemptResponse}
    {result : Except PgCheckError (AttemptAdmission PgAttemptReceipt)}
    (h : PairedResponse.served ⟨memory, .tryAdmit result⟩ = true) : ∃ granted postgres,
      memory = .tryAdmit (.returned (.ok granted)) ∧ result = .ok postgres ∧ granted ≠ .denied .storageCapacity ∧
        postgres ≠ .denied .storageCapacity := by
  cases memory with
  | tryAdmit memory =>
    cases memory with
    | returned memory =>
      cases memory with
      | ok granted =>
        cases result with
        | ok postgres =>
          obtain ⟨hroom, hroom'⟩ := Bool.and_eq_true_iff.1 h
          refine ⟨granted, postgres, rfl, rfl, fun hfull => ?_, fun hfull => ?_⟩
          · rw [AttemptAdmission.full_iff.2 hfull] at hroom
            cases hroom
          · rw [AttemptAdmission.full_iff.2 hfull] at hroom'
            cases hroom'
        | error error => cases h
      | error error => cases h
    | panicked => cases h
  | complete memory =>
    cases memory with
    | returned memory =>
      cases memory with
      | ok completed => cases h
      | error error => cases h
    | panicked => cases h

omit [Sha2] in
/-- A completion that the memory limiter has served. -/
theorem PairedResponse.served_complete {memory : AttemptResponse} {result : Except PgCheckError AttemptCompletionResult}
    (h : PairedResponse.served ⟨memory, .complete result⟩ = true) : ∃ completed,
      memory = .complete (.returned (.ok completed)) := by
  cases memory with
  | tryAdmit memory =>
    cases memory with
    | returned memory =>
      cases memory with
      | ok granted => cases h
      | error error => cases h
    | panicked => cases h
  | complete memory =>
    cases memory with
    | returned memory =>
      cases memory with
      | ok completed => exact ⟨completed, rfl⟩
      | error error => cases h
    | panicked => cases h

/-- **One call**, that neither backend fails. -/
theorem Paired.served (h : Paired known store used nowMs events b)
    (hfree : Set.InjOn Sha2.sha256 (AttemptPolicy.preimage '' known)) (capacity : ℕ) (config : PostgresConfig)
    {call : PairedCall} (hle : nowMs ≤ call.nowMs) (hmax : call.nowMs < 2 ^ 62) (hsampled : call.Sampled)
    (hknown : pairedPolicies [call] ⊆ known) (hfresh : ∀ token ∈ call.request.token, token ∉ used)
    (hserved : ∀ response, (Backends.serve capacity store config call b).1 = some response → response.served = true) :
    (∀ response, (Backends.serve capacity store config call b).1 = some response → response.Agrees) ∧
      ∃ time events', time ≤ call.nowMs ∧ Paired known store (call.request.token.toList ++ used) time events'
        (Backends.serve capacity store config call b).2 := by
  obtain ⟨callMs, request⟩ := call
  cases request with
  | tryAdmit subject sweep token =>
    have hfirst : PairedResponse.served ⟨(MemoryAttemptLimiter.answer capacity store
        ⟨Duration.fromMillis callMs, .tryAdmit subject⟩ b.memory).1,
        .tryAdmit (PgAttempts.tryAdmit config ⟨sweep, callMs, token⟩ subject b.rows).1⟩ = true := hserved _ rfl
    obtain ⟨granted, postgres, hmemory, hpostgres, hroom, hroom'⟩ := PairedResponse.served_tryAdmit hfirst
    have hsubject : subject.policy ∈ known := hknown ⟨_, List.mem_singleton_self _, subject, sweep, token, rfl, rfl⟩
    have hpair : PgAttempts.tryAdmit config ⟨sweep, callMs, token⟩ subject b.rows =
        (.ok postgres, (PgAttempts.tryAdmit config ⟨sweep, callMs, token⟩ subject b.rows).2) := Prod.ext hpostgres rfl
    have hevent : (MemoryAttemptLimiter.serve capacity store ⟨Duration.fromMillis callMs, .tryAdmit subject⟩ b.memory).1 =
        ⟨max b.memory.data.now (Duration.fromMillis callMs), .tryAdmit subject, .tryAdmit (.returned (.ok granted))⟩ :=
      congrArg _ hmemory
    obtain ⟨hagrees, hpaired⟩ := h.tryAdmit hfree hle hmax capacity hsubject (hsampled subject sweep token rfl)
      (hfresh token rfl) (Prod.mk.eta (p := MemoryAttemptLimiter.serve capacity store
        ⟨Duration.fromMillis callMs, .tryAdmit subject⟩ b.memory)).symm hevent hpair hroom hroom'
    have hresponse : (⟨(MemoryAttemptLimiter.answer capacity store ⟨Duration.fromMillis callMs, .tryAdmit subject⟩
          b.memory).1, .tryAdmit (PgAttempts.tryAdmit config ⟨sweep, callMs, token⟩ subject b.rows).1⟩ : PairedResponse) =
        ⟨.tryAdmit (.returned (.ok granted)), .tryAdmit (.ok postgres)⟩ := by
      rw [hmemory, hpostgres]
    refine ⟨fun response hsome => ?_, callMs, events ++ [(MemoryAttemptLimiter.serve capacity store
      ⟨Duration.fromMillis callMs, .tryAdmit subject⟩ b.memory).1], le_rfl, ?_⟩
    · have hsame := Option.some.inj hsome
      rw [← hsame]
      exact hresponse ▸ hagrees
    · rw [← hresponse] at hpaired
      exact hpaired
  | complete admission outcome =>
    cases hreceipt : b.receipts[admission]? with
    | none =>
      -- a completion without an admission to refer to is no call
      have hnone : Backends.serve capacity store config ⟨callMs, .complete admission outcome⟩ b = (none, b) := by
        unfold Backends.serve
        simp only [hreceipt]
      rw [hnone]
      exact ⟨nofun, nowMs, events, hle, h⟩
    | some pair =>
      obtain ⟨memoryReceipt, receipt⟩ := pair
      have hserve : Backends.serve capacity store config ⟨callMs, .complete admission outcome⟩ b =
          (some ⟨(MemoryAttemptLimiter.answer capacity store ⟨Duration.fromMillis callMs, .complete memoryReceipt outcome⟩
            b.memory).1, .complete (PgAttempts.complete callMs receipt outcome b.rows).1⟩,
            ⟨(MemoryAttemptLimiter.answer capacity store ⟨Duration.fromMillis callMs, .complete memoryReceipt outcome⟩
              b.memory).2, (PgAttempts.complete callMs receipt outcome b.rows).2, b.receipts⟩) := by
        unfold Backends.serve
        simp only [hreceipt]
      rw [hserve] at hserved ⊢
      obtain ⟨completed, hmemory⟩ := PairedResponse.served_complete (hserved _ rfl)
      have hevent : (MemoryAttemptLimiter.serve capacity store
            ⟨Duration.fromMillis callMs, .complete memoryReceipt outcome⟩ b.memory).1 =
          ⟨max b.memory.data.now (Duration.fromMillis callMs), .complete memoryReceipt outcome,
            .complete (.returned (.ok completed))⟩ :=
        congrArg _ hmemory
      obtain ⟨hanswer, hpaired⟩ := h.complete hfree hle hmax capacity (List.mem_of_getElem? hreceipt)
        (Prod.mk.eta (p := MemoryAttemptLimiter.serve capacity store
          ⟨Duration.fromMillis callMs, .complete memoryReceipt outcome⟩ b.memory)).symm hevent
      refine ⟨fun response hsome => ?_, callMs, _, le_rfl, hpaired⟩
      have hsame := Option.some.inj hsome
      have hresponse : (⟨(MemoryAttemptLimiter.answer capacity store
            ⟨Duration.fromMillis callMs, .complete memoryReceipt outcome⟩ b.memory).1,
            .complete (PgAttempts.complete callMs receipt outcome b.rows).1⟩ : PairedResponse) =
          ⟨.complete (.returned (.ok completed)), .complete (.ok completed)⟩ := by
        rw [hmemory, hanswer]
      rw [← hsame, hresponse]
      rfl

/-- The rest of a run. -/
theorem Paired.run (hfree : Set.InjOn Sha2.sha256 (AttemptPolicy.preimage '' known)) (capacity : ℕ)
    (config : PostgresConfig) : ∀ {calls : List PairedCall} {used : List LeaseToken} {nowMs : ℕ}
      {events : List AttemptEvent} {b : Backends}, Paired known store used nowMs events b →
    (∀ call ∈ calls, nowMs ≤ call.nowMs) → (calls.map PairedCall.nowMs).Pairwise (· ≤ ·) →
    (∀ call ∈ calls, call.nowMs < 2 ^ 62) → (∀ call ∈ calls, call.Sampled) → pairedPolicies calls ⊆ known →
    (calls.filterMap fun call => call.request.token).Nodup →
    (∀ token ∈ calls.filterMap fun call => call.request.token, token ∉ used) →
    (∀ response, some response ∈ Machine.outputs (Backends.serve capacity store config) b calls → response.served = true) →
    ∀ response, some response ∈ Machine.outputs (Backends.serve capacity store config) b calls → response.Agrees := by
  intro calls used nowMs events b h hle hclock hmax hsampled hknown htokens hfresh hserved
  induction calls generalizing used nowMs events b with
  | nil => exact fun response hresponse => absurd hresponse List.not_mem_nil
  | cons call calls ih =>
    rw [List.forall_mem_cons] at hle hmax hsampled
    rw [List.map_cons, List.pairwise_cons] at hclock
    rw [Machine.outputs_cons] at hserved ⊢
    -- the token of this call comes before those of the rest
    have hcons : (call :: calls).filterMap (fun call => call.request.token) =
        call.request.token.toList ++ calls.filterMap fun call => call.request.token := by
      cases htoken : call.request.token with
      | none =>
        rw [List.filterMap_cons, htoken]
        rfl
      | some token =>
        rw [List.filterMap_cons, htoken]
        rfl
    rw [hcons] at htokens hfresh
    obtain ⟨hdistinct, hdistinct', hdisjoint⟩ := List.nodup_append.1 htokens
    have hpolicies : ∀ {calls' : List PairedCall}, calls' ⊆ call :: calls → pairedPolicies calls' ⊆ known := by
      rintro calls' hsubset policy ⟨other, hother, hrest⟩
      exact hknown ⟨other, hsubset hother, hrest⟩
    obtain ⟨hagrees, time, events', htime, hpaired⟩ := h.served hfree capacity config hle.1 hmax.1 hsampled.1
      (hpolicies (List.cons_subset.2 ⟨List.mem_cons_self, List.nil_subset _⟩))
      (fun token htoken => hfresh token (List.mem_append_left _ (Option.mem_toList.2 htoken)))
      (fun response hresponse => hserved response (hresponse ▸ List.mem_cons_self))
    intro response hresponse
    rcases List.mem_cons.1 hresponse with hfirst | hrest
    · exact hagrees response hfirst.symm
    · refine ih hpaired (fun other hother => ?_) hclock.2 hmax.2 hsampled.2 (hpolicies (List.subset_cons_self _ _))
        hdistinct' (fun token htoken hused => ?_) (fun other hother => hserved other (List.mem_cons_of_mem _ hother))
        response hrest
      · exact htime.trans (hclock.1 _ (List.mem_map_of_mem hother))
      · rcases List.mem_append.1 hused with hown | hold
        · exact hdisjoint token hown token htoken rfl
        · exact hfresh token (List.mem_append_right _ htoken) hold

/-- **The two attempt backends agree.** On the same calls at the same nondecreasing whole milliseconds, where neither
reports a full store or a fault, every call is answered the same by both: admitted, or denied for the same reason and
the same time, and stale, or applied with the same failures and the same delay. -/
theorem attempt_backends_agree (capacity : ℕ) (store : StoreId) (config : PostgresConfig) (calls : List PairedCall)
    (known : Set AttemptPolicy) (hfree : Set.InjOn Sha2.sha256 (AttemptPolicy.preimage '' known))
    (hknown : pairedPolicies calls ⊆ known) (hclock : (calls.map PairedCall.nowMs).Pairwise (· ≤ ·))
    (hmax : ∀ call ∈ calls, call.nowMs < 2 ^ 62) (hsampled : ∀ call ∈ calls, call.Sampled)
    (htokens : (calls.filterMap fun call => call.request.token).Nodup)
    (hserved : ∀ response, some response ∈ Backends.run capacity store config calls → response.served = true) :
    ∀ response, some response ∈ Backends.run capacity store config calls → response.Agrees :=
  (paired_new known store).run hfree capacity config (fun _ _ => Nat.zero_le _) hclock hmax hsampled hknown htokens
    (fun _ _ => List.not_mem_nil) hserved

end Agreement

/-- Four rows a shard. -/
def fewRows : PostgresConfig := ⟨4, 32, Nat.succ_pos 3, by decide, MemoryStoreConfig.defaultBatch_pos⟩

/-- A login attempt that fails after five milliseconds; another two milliseconds later, and one at twenty, which
succeeds; and then the first receipt again. -/
def pairedLogin : List PairedCall :=
  [⟨0, .tryAdmit ⟨loginAttempts, Digest.replicate 1⟩ ⟨0, ∅, []⟩ 7⟩, ⟨5, .complete 0 .failure⟩,
    ⟨7, .tryAdmit ⟨loginAttempts, Digest.replicate 1⟩ ⟨7, ∅, []⟩ 8⟩,
    ⟨20, .tryAdmit ⟨loginAttempts, Digest.replicate 1⟩ ⟨20, ∅, []⟩ 9⟩, ⟨21, .complete 1 .success⟩,
    ⟨22, .complete 0 .success⟩]

theorem attempt_backends_agree_login :
    letI := vectorSha2
    (Backends.run 4 3 fewRows pairedLogin).all (fun answer => answer.all PairedResponse.served) = true ∧
      ∀ response, some response ∈ Backends.run 4 3 fewRows pairedLogin → response.Agrees := by
  let := vectorSha2
  have hserved : (Backends.run 4 3 fewRows pairedLogin).all (fun answer => answer.all PairedResponse.served) = true := by
    decide +kernel
  have hcalls : ∀ call ∈ pairedLogin, call.nowMs < 2 ^ 62 ∧ call.Sampled ∧
      ∀ subject sweep token, call.request = .tryAdmit subject sweep token → subject.policy = loginAttempts := by
    intro call hcall
    unfold pairedLogin at hcall
    simp only [List.mem_cons, List.not_mem_nil, or_false] at hcall
    unfold PairedCall.Sampled
    rcases hcall with rfl | rfl | rfl | rfl | rfl | rfl
    · exact ⟨by decide, fun _ _ _ heq => by cases heq; exact le_rfl, fun _ _ _ heq => by cases heq; rfl⟩
    · exact ⟨by decide, fun _ _ _ heq => (by cases heq), fun _ _ _ heq => (by cases heq)⟩
    · exact ⟨by decide, fun _ _ _ heq => by cases heq; exact le_rfl, fun _ _ _ heq => by cases heq; rfl⟩
    · exact ⟨by decide, fun _ _ _ heq => by cases heq; exact le_rfl, fun _ _ _ heq => by cases heq; rfl⟩
    · exact ⟨by decide, fun _ _ _ heq => (by cases heq), fun _ _ _ heq => (by cases heq)⟩
    · exact ⟨by decide, fun _ _ _ heq => (by cases heq), fun _ _ _ heq => (by cases heq)⟩
  have hfree : Set.InjOn Sha2.sha256 (AttemptPolicy.preimage '' {loginAttempts}) := by
    rw [Set.image_singleton]
    exact Set.injOn_singleton _ _
  refine ⟨hserved, attempt_backends_agree 4 3 fewRows pairedLogin {loginAttempts} hfree ?_ (by decide)
    (fun call hcall => (hcalls call hcall).1) (fun call hcall => (hcalls call hcall).2.1) (by decide) ?_⟩
  · rintro policy ⟨call, hcall, subject, sweep, token, hrequest, rfl⟩
    exact (hcalls call hcall).2.2 subject sweep token hrequest
  · intro response hresponse
    exact List.all_eq_true.1 hserved _ hresponse

end Runlimit
