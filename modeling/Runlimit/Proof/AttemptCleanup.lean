import Runlimit.Cursor.Scan
import Runlimit.Proof.EagerRefines

/-!
# Attempt storage is bounded, and pressure is relieved

`cleanup` is a scan whose cursor walks a map that changes under it: 16 keys at each admission, from
the start again after a turn that finds nothing. An entry that has been quiet is removed by the
first turn that examines it, and how many turns that takes at most is `Cursor.turns`. Main results:

* `cleanup_removes`: an examined entry that has been quiet is removed;
* `Due.step`: an entry that has been quiet stays so until its key is admitted again;
* `serve_turns`: an admission that inserts nothing brings the entry one turn nearer;
* `attempt_storage_relieved`: over all runs.
-/

namespace Runlimit

/-! ## Quiet entries -/

namespace AttemptEntry

/-- The time from which an entry has to be quiet: the end of its lease, or its last failure. -/
def origin (entry : AttemptEntry) : Duration :=
  match entry.lease with
  | some (_, deadline) => deadline
  | none => entry.lastFailure

/-- `removable` compares the end of the quiet period with the time. -/
theorem removable_iff {entry : AttemptEntry} {now : Duration} :
    entry.removable now = true ↔ entry.origin.saturatingAdd entry.policy.quietPeriod.duration ≤ now := by
  unfold removable origin
  exact decide_eq_true_iff

theorem removable_mono {entry : AttemptEntry} {t now : Duration} (h : entry.removable t = true) (hle : t ≤ now) :
    entry.removable now = true :=
  removable_iff.2 ((removable_iff.1 h).trans hle)

theorem le_saturatingAdd (a b : Duration) : a ≤ a.saturatingAdd b := by
  change a.nanos ≤ min (a.nanos + b.nanos) maxNanos
  have hmax := a.le_max
  omega

/-- An entry that has been quiet holds no lease that has not run out. -/
theorem origin_le_of_removable {entry : AttemptEntry} {now : Duration} (h : entry.removable now = true) :
    entry.origin ≤ now :=
  (le_saturatingAdd _ _).trans (removable_iff.1 h)

theorem expireLease_of_removable {entry : AttemptEntry} {now : Duration} (h : entry.removable now = true) :
    (entry.expireLease now).lease = none ∧ (entry.expireLease now).lastFailure = entry.origin ∧
      (entry.expireLease now).policy = entry.policy := by
  have hle := origin_le_of_removable h
  unfold origin at hle ⊢
  unfold expireLease
  cases hlease : entry.lease with
  | none => exact ⟨hlease, rfl, rfl⟩
  | some lease =>
    obtain ⟨generation, deadline⟩ := lease
    rw [hlease] at hle
    simp only at hle ⊢
    rw [if_pos hle]
    exact ⟨rfl, rfl, rfl⟩

/-- Reconciling an entry that has been quiet starts it over. -/
theorem reconcile_of_removable {entry : AttemptEntry} {now : Duration} (h : entry.removable now = true) :
    (entry.reconcile now).deny now = none ∧ (entry.reconcile now).origin = entry.origin ∧
      (entry.reconcile now).policy = entry.policy := by
  obtain ⟨hlease, hlast, hpolicy⟩ := expireLease_of_removable h
  have hquiet := removable_iff.1 h
  have hreconcile : entry.reconcile now = { entry.expireLease now with failures := 0, retryAt := now } := by
    unfold reconcile forgetFailures
    rw [if_pos ⟨hlease, by rw [hlast, hpolicy]; exact hquiet⟩]
  rw [hreconcile]
  refine ⟨?_, ?_, hpolicy⟩
  · unfold deny
    simp only [hlease]
    rw [if_neg (lt_irrefl now)]
  · change origin { entry.expireLease now with failures := 0, retryAt := now } = entry.origin
    rw [← hlast, origin]
    simp only [hlease]

/-- What has been quiet is still so after it is reconciled. -/
theorem reconcile_removable {entry : AttemptEntry} {t now : Duration} (h : entry.removable t = true) (hle : t ≤ now) :
    (entry.reconcile now).removable t = true := by
  obtain ⟨-, horigin, hpolicy⟩ := reconcile_of_removable (removable_mono h hle)
  rw [removable_iff, horigin, hpolicy]
  exact removable_iff.1 h

end AttemptEntry

/-- The key has no entry, or one that has been quiet. -/
def Due (key : AttemptKey) (t : Duration) (s : AttemptState) : Prop :=
  ∀ entry ∈ s.entries.lookup key, entry.removable t = true

section Steps

variable [Sha2] {store : StoreId} {key : AttemptKey} {event : AttemptEvent} {s s' : AttemptState} {t : Duration}

/-- An entry that has been quiet stays so until its key is admitted again. -/
theorem Due.step (h : Due key t s) (hstep : AttemptStep store key event s s') (ht : t ≤ event.now)
    (hnot : ¬ event.Admits key) : Due key t s' := by
  have hcleaned : ∀ {after : Option AttemptEntry}, Cleaned event.now (s.entries.lookup key) after →
      ∀ entry ∈ after, entry.removable t = true := by
    intro after hafter entry hentry
    rcases hafter with rfl | ⟨-, -, -, rfl⟩
    · exact h entry hentry
    · cases hentry
  intro entry hentry
  cases hstep with
  | other hkey hcase => exact hcleaned hcase entry hentry
  | full subject hrequest hkey hresponse hcase hnone =>
    rw [hnone] at hentry
    cases hentry
  | denied subject hrequest hkey e denial hresponse hlookup hdeny hafter =>
    have hquiet := AttemptEntry.removable_mono (h e hlookup) ht
    rw [(AttemptEntry.reconcile_of_removable hquiet).1] at hdeny
    cases hdeny
  | exhausted subject hrequest hkey hresponse e hcase hdeny hafter =>
    rw [hafter] at hentry
    obtain ⟨e', rfl, rfl⟩ := Option.map_eq_some_iff.1 hentry
    exact AttemptEntry.reconcile_removable (hcleaned hcase e' rfl) ht
  | admitted subject hrequest hkey e hresponse hcase hdeny leased hleased hafter =>
    refine absurd ⟨?_, ?_⟩ hnot
    · rw [hrequest]
      exact hkey
    · rw [hresponse]
      rfl
  | applied receipt outcome hrequest hkey hstore e hlookup hholds done hresponse houtcome hdone =>
    -- the lease of a quiet entry has run out
    have hquiet := AttemptEntry.origin_le_of_removable (AttemptEntry.removable_mono (h e hlookup) ht)
    obtain ⟨deadline, hlease, hlt⟩ := hholds
    unfold AttemptEntry.origin at hquiet
    rw [hlease] at hquiet
    exact absurd hquiet (not_le.2 hlt)
  | stale receipt outcome hrequest hkey hresponse hstale hafter =>
    rw [hafter] at hentry
    exact h entry hentry

/-- Only an admission of a key gives it an entry. -/
theorem AttemptStep.mem_of_mem (hstep : AttemptStep store key event s s') (hnot : ¬ event.Admits key)
    (h : key ∈ s'.entries.keys) : key ∈ s.entries.keys := by
  by_contra hmem
  have hnone : s.entries.lookup key = none := Finmap.notMem_keys_iff.1 hmem
  obtain ⟨entry, hentry⟩ := Finmap.mem_keys_iff.1 h
  cases hstep with
  | other hkey hcase =>
    rw [hnone] at hcase
    rw [hcase.none_eq] at hentry
    cases hentry
  | full subject hrequest hkey hresponse hcase hafter =>
    rw [hafter] at hentry
    cases hentry
  | denied subject hrequest hkey e denial hresponse hlookup hdeny hafter =>
    rw [hnone] at hlookup
    cases hlookup
  | exhausted subject hrequest hkey hresponse e hcase hdeny hafter =>
    rw [hnone] at hcase
    rw [hafter, hcase.none_eq] at hentry
    cases hentry
  | admitted subject hrequest hkey e hresponse hcase hdeny leased hleased hafter =>
    -- the only step that inserts an entry is an admission of its key
    refine hnot ⟨?_, ?_⟩
    · rw [hrequest]
      exact hkey
    · rw [hresponse]
      rfl
  | applied receipt outcome hrequest hkey hstore e hlookup hholds done hresponse houtcome hdone =>
    rw [hnone] at hlookup
    cases hlookup
  | stale receipt outcome hrequest hkey hresponse hstale hafter =>
    rw [hafter, hnone] at hentry
    cases hentry

end Steps

/-! ## One turn of the scan -/

namespace AttemptState

/-- `cleanup` examines one window of the cursor. -/
theorem examined_eq (state : AttemptState) : state.examined = Cursor.window 16 state.entries.keys state.cursor := by
  unfold examined Cursor.window Cursor.ahead
  cases state.cursor with
  | none => rfl
  | some cursor => rfl

/-- A key among the examined ones loses an entry that has been quiet. -/
theorem removeQuiet_removes {now : Duration} {key : AttemptKey} {entry : AttemptEntry}
    (hremovable : entry.removable now = true) : ∀ {keys : List AttemptKey} {entries : Table AttemptKey AttemptEntry},
    key ∈ keys → (∀ e ∈ entries.lookup key, e = entry) → (removeQuiet now keys entries).lookup key = none := by
  intro keys
  induction keys with
  | nil =>
    intro entries hmem _
    cases hmem
  | cons k keys ih =>
    intro entries hmem hentry
    unfold removeQuiet
    by_cases hk : k = key
    · -- what comes after the key in the list can only remove more
      subst hk
      cases hlookup : entries.lookup k with
      | none =>
        have hrest := removeQuiet_cleaned now k keys entries
        rw [hlookup] at hrest
        exact hrest.none_eq
      | some e =>
        rw [hentry e hlookup]
        simp only
        rw [if_pos hremovable]
        have hrest := removeQuiet_cleaned now k keys (entries.erase k)
        rw [Finmap.lookup_erase] at hrest
        exact hrest.none_eq
    · have hmem : key ∈ keys := (List.mem_cons.1 hmem).resolve_left (Ne.symm hk)
      cases hlookup : entries.lookup k with
      | none => exact ih hmem hentry
      | some e =>
        simp only
        split
        · refine ih hmem ?_
          rw [Finmap.lookup_erase_ne (Ne.symm hk)]
          exact hentry
        · exact ih hmem hentry

/-- **An examined entry that has been quiet is removed.** -/
theorem cleanup_removes {state : AttemptState} {now : Duration} {key : AttemptKey} {entry : AttemptEntry}
    (hlookup : state.entries.lookup key = some entry) (hremovable : entry.removable now = true)
    (hmem : key ∈ Cursor.window 16 state.entries.keys state.cursor) : (state.cleanup now).entries.lookup key = none := by
  rw [← examined_eq] at hmem
  refine removeQuiet_removes hremovable hmem ?_
  intro e he
  rw [hlookup] at he
  exact (Option.mem_some.1 he).symm

/-- `cleanup` inserts nothing. -/
theorem cleanup_keys_subset (state : AttemptState) (now : Duration) :
    (state.cleanup now).entries.keys ⊆ state.entries.keys := by
  intro key hkey
  by_contra hnot
  have hcleaned := cleanup_cleaned state now key
  rw [Finmap.notMem_keys_iff.1 hnot] at hcleaned
  exact Finmap.notMem_keys_iff.2 hcleaned.none_eq hkey

end AttemptState

/-! ## What a call does to the stored keys -/

namespace MemoryAttemptLimiter

theorem keys_insert_of_mem {entries : Table AttemptKey AttemptEntry} {key : AttemptKey} (h : key ∈ entries.keys)
    (entry : AttemptEntry) : (entries.insert key entry).keys = entries.keys := by
  rw [Finmap.keys_insert, Finset.insert_eq_of_mem h]

/-- The keys and the cursor after the second half of an admission. -/
theorem reserve_keys (store : StoreId) (now : Duration) (policy : AttemptPolicy) (key : AttemptKey) (s : AttemptState) :
    (reserve store now policy key s).2.cursor = s.cursor ∧
    ((reserve store now policy key s).1 ≠ .ok (.denied .storageCapacity)) ∧
    ((reserve store now policy key s).2.entries.keys = s.entries.keys ∨
      (∃ receipt, (reserve store now policy key s).1 = .ok (.admitted receipt)) ∧
        (reserve store now policy key s).2.entries.keys = insert key s.entries.keys) := by
  unfold reserve
  split
  · exact ⟨rfl, by simp, Or.inl rfl⟩
  · refine ⟨rfl, by simp, Or.inr ⟨⟨_, rfl⟩, ?_⟩⟩
    rw [Finmap.keys_insert]

/-- The state with the reconciled entry of a key. -/
def reconciled (reading : Duration) (key : AttemptKey) (entry : AttemptEntry) (state : AttemptState) : AttemptState :=
  { swept reading state with
    entries := (swept reading state).entries.insert key (entry.reconcile (max state.now reading)) }

/-- An admission after its sweep: the entry of the key decides, or the room. -/
theorem admitLocked_eq (capacity : ℕ) (store : StoreId) (reading : Duration) (policy : AttemptPolicy)
    (key : AttemptKey) (state : AttemptState) :
    admitLocked capacity store reading policy key state =
      match (swept reading state).entries.lookup key with
      | some entry =>
        match (entry.reconcile (max state.now reading)).deny (max state.now reading) with
        | some denial => (.ok (.denied denial), reconciled reading key entry state)
        | none => reserve store (max state.now reading) policy key (reconciled reading key entry state)
      | none =>
        if capacity ≤ (swept reading state).entries.keys.card then
          (.ok (.denied .storageCapacity), swept reading state)
        else reserve store (max state.now reading) policy key (swept reading state) := rfl

/-- A stored entry is never denied for want of room. -/
theorem deny_ne_storageCapacity {entry : AttemptEntry} {now : Duration} : entry.deny now ≠ some .storageCapacity := by
  unfold AttemptEntry.deny
  split
  · simp
  · split
    · simp
    · simp

/-- **What an admission does to the stored keys.** It is denied for want of room, or its key has an entry
already, or there is room. -/
theorem admitLocked_keys (capacity : ℕ) (store : StoreId) (reading : Duration) (policy : AttemptPolicy)
    (key : AttemptKey) (state : AttemptState) {result : Except MemoryAttemptError (AttemptAdmission MemoryAttemptReceipt)}
    {state' : AttemptState} (h : admitLocked capacity store reading policy key state = (result, state')) :
    state'.cursor = (Cursor.window 16 state.entries.keys state.cursor).getLast? ∧
    ((result = .ok (.denied .storageCapacity) ∧ key ∉ (swept reading state).entries.keys ∧
        capacity ≤ (swept reading state).entries.keys.card ∧ state'.entries.keys = (swept reading state).entries.keys) ∨
      (result ≠ .ok (.denied .storageCapacity) ∧ key ∈ (swept reading state).entries.keys ∧
        state'.entries.keys = (swept reading state).entries.keys) ∨
      (result ≠ .ok (.denied .storageCapacity) ∧ key ∉ (swept reading state).entries.keys ∧
        (swept reading state).entries.keys.card < capacity ∧
        (state'.entries.keys = (swept reading state).entries.keys ∨
          (∃ receipt, result = .ok (.admitted receipt)) ∧
            state'.entries.keys = insert key (swept reading state).entries.keys))) := by
  have hcursor : (swept reading state).cursor = (Cursor.window 16 state.entries.keys state.cursor).getLast? := by
    rw [← AttemptState.examined_eq]
    rfl
  rw [admitLocked_eq] at h
  split at h
  · rename_i entry hlookup
    -- the key is stored: whatever becomes of its entry, the stored keys stay
    have hmem : key ∈ (swept reading state).entries.keys := Finmap.mem_keys_iff.2 ⟨entry, hlookup⟩
    have hkeys : (reconciled reading key entry state).entries.keys = (swept reading state).entries.keys :=
      keys_insert_of_mem hmem _
    split at h
    · rename_i denial hdeny
      cases h
      refine ⟨hcursor, Or.inr (Or.inl ⟨?_, hmem, hkeys⟩)⟩
      intro hcapacity
      cases hcapacity
      exact deny_ne_storageCapacity hdeny
    · obtain ⟨hsame, hresult, hkeys'⟩ :=
        reserve_keys store (max state.now reading) policy key (reconciled reading key entry state)
      rw [h] at hsame hresult hkeys'
      refine ⟨hsame.trans hcursor, Or.inr (Or.inl ⟨hresult, hmem, ?_⟩)⟩
      rw [hkeys, Finset.insert_eq_of_mem hmem] at hkeys'
      exact hkeys'.elim id And.right
  · rename_i hlookup
    -- the key is not stored: the room decides
    have hmem : key ∉ (swept reading state).entries.keys := Finmap.notMem_keys_iff.2 hlookup
    split at h
    · rename_i hfull
      cases h
      exact ⟨hcursor, Or.inl ⟨rfl, hmem, hfull, rfl⟩⟩
    · rename_i hroom
      obtain ⟨hsame, hresult, hkeys'⟩ := reserve_keys store (max state.now reading) policy key (swept reading state)
      rw [h] at hsame hresult hkeys'
      exact ⟨hsame.trans hcursor, Or.inr (Or.inr ⟨hresult, hmem, not_le.1 hroom, hkeys'⟩)⟩

theorem swept_keys_subset (reading : Duration) (state : AttemptState) :
    (swept reading state).entries.keys ⊆ state.entries.keys :=
  AttemptState.cleanup_keys_subset { state with now := max state.now reading } _

/-- What a completion does to the stored keys. -/
theorem completeLocked_keys {store : StoreId} {reading : Duration} {receipt : MemoryAttemptReceipt}
    {outcome : AttemptOutcome} {state state' : AttemptState} {result : AttemptCompletionResult}
    (h : completeLocked store reading receipt outcome state = .ok (result, state')) :
    state'.cursor = state.cursor ∧ state'.entries.keys ⊆ state.entries.keys := by
  rcases completeLocked_cases store reading receipt outcome state with
    ⟨hstore, entry, hentry, hholds⟩ | ⟨hnot, hstale⟩
  · by_cases houtcome : outcome = .success
    · subst houtcome
      rw [completeLocked_success hstore hentry hholds] at h
      cases h
      refine ⟨rfl, ?_⟩
      intro key hkey
      change key ∈ (state.entries.erase receipt.key).keys at hkey
      rw [Finmap.keys_erase] at hkey
      exact Finset.mem_of_mem_erase hkey
    · obtain ⟨done, hcomplete, -⟩ := completeLocked_failure houtcome hstore hentry hholds
      rw [hcomplete] at h
      cases h
      refine ⟨rfl, ?_⟩
      change (state.entries.insert receipt.key _).keys ⊆ _
      rw [keys_insert_of_mem (Finmap.mem_keys_iff.2 ⟨entry, hentry⟩)]
  · rw [hstale] at h
    cases h
    exact ⟨rfl, subset_rfl⟩

section Serve

variable [Sha2]

/-- The event denies an admission for want of room. -/
def storageDenied (event : AttemptEvent) : Bool :=
  decide (event.response = .tryAdmit (.returned (.ok (.denied .storageCapacity))))

/-- **What a call does to the stored keys.** -/
theorem serve_keys {capacity : ℕ} {store : StoreId} {call : AttemptCall} {s s' : Mutex AttemptState}
    {event : AttemptEvent} (hs : s.poisoned = false) (h : serve capacity store call s = (event, s')) :
    (∃ subject, call.request = .tryAdmit subject ∧
      s'.data.cursor = (Cursor.window 16 s.data.entries.keys s.data.cursor).getLast? ∧
      (storageDenied event = true ↔ subject.key ∉ (swept call.reading s.data).entries.keys ∧
        capacity ≤ (swept call.reading s.data).entries.keys.card) ∧
      (s'.data.entries.keys = (swept call.reading s.data).entries.keys ∨
        event.Admits subject.key ∧ (swept call.reading s.data).entries.keys.card < capacity ∧
          s'.data.entries.keys = insert subject.key (swept call.reading s.data).entries.keys)) ∨
    (∃ receipt outcome, call.request = .complete receipt outcome ∧ storageDenied event = false ∧
      s'.data.cursor = s.data.cursor ∧ s'.data.entries.keys ⊆ s.data.entries.keys) := by
  obtain ⟨reading, request⟩ := call
  obtain ⟨data, poisoned⟩ := s
  simp only at hs
  subst hs
  cases request with
  | tryAdmit subject =>
    refine Or.inl ⟨subject, rfl, ?_⟩
    cases hgrant : admitLocked capacity store reading subject.policy subject.key data with
    | mk result data' =>
    rw [serve_tryAdmit hgrant] at h
    cases h
    have hdenied : storageDenied ⟨max data.now reading, .tryAdmit subject, .tryAdmit (.returned result)⟩ = true ↔
        result = .ok (.denied .storageCapacity) := by
      unfold storageDenied
      rw [decide_eq_true_eq, AttemptResponse.tryAdmit.injEq, CallResult.returned.injEq]
    obtain ⟨hcursor, hcases⟩ := admitLocked_keys capacity store reading subject.policy subject.key data hgrant
    refine ⟨hcursor, ?_, ?_⟩
    · rw [hdenied]
      rcases hcases with ⟨hresult, hmem, hfull, -⟩ | ⟨hresult, hmem, -⟩ | ⟨hresult, hmem, hroom, -⟩
      · exact ⟨fun _ => ⟨hmem, hfull⟩, fun _ => hresult⟩
      · exact ⟨fun h => absurd h hresult, fun h => absurd hmem h.1⟩
      · exact ⟨fun h => absurd h hresult, fun h => absurd hroom (not_lt.2 h.2)⟩
    · rcases hcases with ⟨-, -, -, hkeys⟩ | ⟨-, -, hkeys⟩ | ⟨-, -, hroom, hkeys⟩
      · exact Or.inl hkeys
      · exact Or.inl hkeys
      · rcases hkeys with hkeys | ⟨⟨receipt, rfl⟩, hkeys⟩
        · exact Or.inl hkeys
        · exact Or.inr ⟨⟨rfl, rfl⟩, hroom, hkeys⟩
  | complete receipt outcome =>
    refine Or.inr ⟨receipt, outcome, rfl, ?_⟩
    cases hcomplete : completeLocked store reading receipt outcome data with
    | error panic =>
      rcases completeLocked_cases store reading receipt outcome data with
        ⟨hstore, entry, hentry, hholds⟩ | ⟨-, hstale⟩
      · by_cases houtcome : outcome = .success
        · subst houtcome
          rw [completeLocked_success hstore hentry hholds] at hcomplete
          cases hcomplete
        · obtain ⟨done, hdone, -⟩ := completeLocked_failure houtcome hstore hentry hholds
          rw [hdone] at hcomplete
          cases hcomplete
      · rw [hstale] at hcomplete
        cases hcomplete
    | ok p =>
      obtain ⟨result, data'⟩ := p
      rw [serve_complete hcomplete] at h
      cases h
      exact ⟨rfl, completeLocked_keys hcomplete⟩

variable {capacity : ℕ} {store : StoreId} {call : AttemptCall} {s s' : Mutex AttemptState} {event : AttemptEvent}

/-- The stored keys stay within the capacity. -/
theorem serve_card_le (hs : s.poisoned = false) (h : serve capacity store call s = (event, s'))
    (hcard : s.data.entries.keys.card ≤ capacity) : s'.data.entries.keys.card ≤ capacity := by
  have hswept := Finset.card_le_card (swept_keys_subset call.reading s.data)
  rcases serve_keys hs h with ⟨subject, -, -, -, hkeys | ⟨-, hroom, hkeys⟩⟩ | ⟨receipt, outcome, -, -, -, hkeys⟩
  · rw [hkeys]
    exact hswept.trans hcard
  · rw [hkeys]
    exact (Finset.card_insert_le _ _).trans hroom
  · exact (Finset.card_le_card hkeys).trans hcard

/-- The call is an admission that inserts no new entry. -/
def isCalm (call : AttemptCall) (s s' : AttemptState) : Bool :=
  match call.request with
  | .tryAdmit _ => decide (s'.entries.keys ⊆ s.entries.keys)
  | .complete _ _ => false

/-- **An admission that inserts nothing brings a quiet entry one turn nearer; no other call delays it.** -/
theorem serve_turns (hs : s.poisoned = false) (h : serve capacity store call s = (event, s')) {key : AttemptKey}
    {t : Duration} (hdue : Due key t s.data) (ht : t ≤ max s.data.now call.reading) (hnot : ¬ event.Admits key)
    (hmem : key ∈ s'.data.entries.keys) :
    Cursor.turns 16 s'.data.entries.keys s'.data.cursor key + (if isCalm call s.data s'.data then 1 else 0) ≤
      Cursor.turns 16 s.data.entries.keys s.data.cursor key := by
  have hbefore : key ∈ s.data.entries.keys := ((serve_attemptStep hs h).2 key).mem_of_mem hnot hmem
  have hsubset := swept_keys_subset call.reading s.data
  rcases serve_keys hs h with ⟨subject, hrequest, hcursor, -, hkeys⟩ | ⟨receipt, outcome, hrequest, -, hcursor, hkeys⟩
  · have hkept : key ∈ (swept call.reading s.data).entries.keys := by
      rcases hkeys with hkeys | ⟨hadmits, -, hkeys⟩
      · rwa [hkeys] at hmem
      · rw [hkeys, Finset.mem_insert] at hmem
        rcases hmem with rfl | hmem
        · exact absurd hadmits hnot
        · exact hmem
    -- the turn did not examine the key, or the entry would be gone
    have hwindow : key ∉ Cursor.window 16 s.data.entries.keys s.data.cursor := by
      intro hwindow
      obtain ⟨entry, hentry⟩ := Finmap.mem_keys_iff.1 hbefore
      have hgone : (swept call.reading s.data).entries.lookup key = none :=
        AttemptState.cleanup_removes hentry (AttemptEntry.removable_mono (hdue entry hentry) ht) hwindow
      exact Finmap.notMem_keys_iff.2 hgone hkept
    have hpass := Cursor.turns_pass (by norm_num : 0 < 16) hbefore hwindow
    rw [hcursor]
    by_cases hcalm : s'.data.entries.keys ⊆ s.data.entries.keys
    · have hmono := @Cursor.turns_mono _ _ 16 _ (Cursor.window 16 s.data.entries.keys s.data.cursor).getLast? key
        (by norm_num) _ hcalm
      have hone : (if isCalm call s.data s'.data then 1 else 0) = 1 := by
        unfold isCalm
        simp [hrequest, hcalm]
      omega
    · have hinsert : ∀ k ∈ s'.data.entries.keys, k ∈ s.data.entries.keys ∨ k ∈ ({subject.key} : Finset AttemptKey) := by
        rcases hkeys with hkeys | ⟨-, -, hkeys⟩
        · exact absurd (hkeys ▸ hsubset) hcalm
        · intro k hk
          rw [hkeys, Finset.mem_insert] at hk
          rcases hk with rfl | hk
          · exact Or.inr (Finset.mem_singleton_self _)
          · exact Or.inl (hsubset hk)
      have hadd := @Cursor.turns_le_add _ _ 16 _ (Cursor.window 16 s.data.entries.keys s.data.cursor).getLast? key
        (by norm_num) _ _ hinsert
      have hzero : (if isCalm call s.data s'.data then 1 else 0) = 0 := by
        unfold isCalm
        simp [hrequest, hcalm]
      rw [Finset.card_singleton] at hadd
      omega
  · have hmono := @Cursor.turns_mono _ _ 16 _ s.data.cursor key (by norm_num) _ hkeys
    have hzero : (if isCalm call s.data s'.data then 1 else 0) = 0 := by
      unfold isCalm
      simp [hrequest]
    rw [hcursor]
    omega

/-! ## Runs -/

theorem serve_event (call : AttemptCall) (s : Mutex AttemptState) :
    (serve capacity store call s).1.now = max s.data.now call.reading ∧
      (serve capacity store call s).1.request = call.request := ⟨rfl, rfl⟩

/-- A limiter that no call has left unusable, with no more entries than it may have. -/
structure Sound (capacity : ℕ) (s : Mutex AttemptState) : Prop where
  unpoisoned : s.poisoned = false
  card_le : s.data.entries.keys.card ≤ capacity

/-- Every call leaves the limiter sound. -/
theorem Sound.serve (h : Sound capacity s) (store : StoreId) (call : AttemptCall) :
    Sound capacity (MemoryAttemptLimiter.serve capacity store call s).2 := by
  have heta := (Prod.mk.eta (p := MemoryAttemptLimiter.serve capacity store call s)).symm
  exact ⟨(serve_attemptStep h.unpoisoned heta).1.unpoisoned, serve_card_le h.unpoisoned heta h.card_le⟩

theorem after_sound (capacity : ℕ) (store : StoreId) (calls : List AttemptCall) :
    Sound capacity (after capacity store calls) :=
  @Machine.final_inv _ _ _ _ (fun _ => True) (Sound capacity) (fun call _ _ h => h.serve store call) _
    ⟨rfl, Nat.zero_le _⟩ _ (fun _ _ => trivial)

/-- How many calls of a run are admissions that insert no new entry. -/
def calmAdmits (capacity : ℕ) (store : StoreId) : Mutex AttemptState → List AttemptCall → ℕ
  | _, [] => 0
  | s, call :: calls =>
    (if isCalm call s.data (serve capacity store call s).2.data then 1 else 0) +
      calmAdmits capacity store (serve capacity store call s).2 calls

variable {key : AttemptKey} {t : Duration}

/-- A key without an entry has none until it is admitted. -/
theorem final_notMem {later : List AttemptCall} : ∀ {s : Mutex AttemptState}, s.poisoned = false →
    (∀ event ∈ Machine.outputs (serve capacity store) s later, ¬ event.Admits key) →
    key ∉ s.data.entries.keys → key ∉ (Machine.final (serve capacity store) s later).data.entries.keys := by
  induction later with
  | nil => exact fun _ _ h => h
  | cons call later ih =>
    intro s hs hnot hgone
    rw [Machine.outputs_cons, List.forall_mem_cons] at hnot
    obtain ⟨hserved, hstep⟩ := serve_attemptStep hs (Prod.mk.eta (p := serve capacity store call s)).symm
    exact ih hserved.unpoisoned hnot.2 fun h => hgone ((hstep key).mem_of_mem hnot.1 h)

/-- Over a run, each admission that inserts nothing takes a turn. -/
theorem final_turns {later : List AttemptCall} : ∀ {s : Mutex AttemptState}, s.poisoned = false → Due key t s.data →
    (∀ call ∈ later, t ≤ max s.data.now call.reading) →
    (∀ event ∈ Machine.outputs (serve capacity store) s later, ¬ event.Admits key) →
    key ∈ (Machine.final (serve capacity store) s later).data.entries.keys →
    Cursor.turns 16 (Machine.final (serve capacity store) s later).data.entries.keys
        (Machine.final (serve capacity store) s later).data.cursor key + calmAdmits capacity store s later ≤
      Cursor.turns 16 s.data.entries.keys s.data.cursor key := by
  induction later with
  | nil =>
    intro s _ _ _ _ _
    exact le_rfl
  | cons call later ih =>
    intro s hs hdue hlate hnot hmem
    rw [List.forall_mem_cons] at hlate
    rw [Machine.outputs_cons, List.forall_mem_cons] at hnot
    have heta := (Prod.mk.eta (p := serve capacity store call s)).symm
    obtain ⟨hserved, hstep⟩ := serve_attemptStep hs heta
    have hdue' := hdue.step (hstep key) hlate.1 hnot.1
    have hlate' : ∀ c ∈ later, t ≤ max (serve capacity store call s).2.data.now c.reading := by
      intro c hc
      rw [hserved.now_eq]
      exact (hlate.2 c hc).trans (max_le_max_right _ hserved.now_le)
    have hrest := ih hserved.unpoisoned hdue' hlate' hnot.2 hmem
    have hkept : key ∈ (serve capacity store call s).2.data.entries.keys :=
      not_not.1 fun hgone => final_notMem hserved.unpoisoned hnot.2 hgone hmem
    have hturn := serve_turns hs heta hdue hlate.1 hnot.1 hkept
    rw [Machine.final_cons, calmAdmits]
    omega

variable {subject : AttemptSubject}

/-- A subject that is stored, or for which there is room, is not denied for want of room. -/
theorem admits_with_room {later : List AttemptCall} : ∀ {s : Mutex AttemptState}, Sound capacity s →
    (∀ call ∈ later, call.request = .tryAdmit subject) →
    subject.key ∈ s.data.entries.keys ∨ s.data.entries.keys.card < capacity →
    (Machine.outputs (serve capacity store) s later).countP storageDenied = 0 := by
  induction later with
  | nil => exact fun _ _ _ => rfl
  | cons call later ih =>
    intro s hs hcalls hroom
    rw [List.forall_mem_cons] at hcalls
    have heta := (Prod.mk.eta (p := serve capacity store call s)).symm
    rcases serve_keys hs.unpoisoned heta with ⟨subject', hrequest, -, hdenied, hkeys⟩ | ⟨receipt, outcome, hrequest, -⟩
    · obtain rfl : subject = subject' := by
        rw [hcalls.1] at hrequest
        exact AttemptRequest.tryAdmit.inj hrequest
      have hsubset := swept_keys_subset call.reading s.data
      -- a cleanup that takes the key away makes room for it
      have hspare : subject.key ∉ (swept call.reading s.data).entries.keys →
          (swept call.reading s.data).entries.keys.card < capacity := by
        intro hnot
        rcases hroom with hmem | hroom
        · have hlt := Finset.card_lt_card (Finset.ssubset_iff_of_subset hsubset |>.2 ⟨_, hmem, hnot⟩)
          exact hlt.trans_le hs.card_le
        · exact (Finset.card_le_card hsubset).trans_lt hroom
      have hgranted : ¬ storageDenied (serve capacity store call s).1 = true := by
        rw [hdenied]
        rintro ⟨hnot, hfull⟩
        exact absurd (hspare hnot) (not_lt.2 hfull)
      have hroom' : subject.key ∈ (serve capacity store call s).2.data.entries.keys ∨
          (serve capacity store call s).2.data.entries.keys.card < capacity := by
        rcases hkeys with hkeys | ⟨-, -, hkeys⟩
        · rw [hkeys]
          by_cases hmem : subject.key ∈ (swept call.reading s.data).entries.keys
          · exact Or.inl hmem
          · exact Or.inr (hspare hmem)
        · rw [hkeys]
          exact Or.inl (Finset.mem_insert_self _ _)
      rw [Machine.outputs_cons, List.countP_cons_of_neg hgranted]
      exact ih (hs.serve store call) hcalls.2 hroom'
    · rw [hcalls.1] at hrequest
      cases hrequest

/-- A fresh subject is denied for want of room at most once for each turn before the last. -/
theorem storageDenied_lt_turns {later : List AttemptCall} : ∀ {s : Mutex AttemptState}, Sound capacity s →
    subject.key ∉ s.data.entries.keys → key ∈ s.data.entries.keys → Due key t s.data →
    (∀ call ∈ later, call.request = .tryAdmit subject ∧ t ≤ max s.data.now call.reading) →
    (Machine.outputs (serve capacity store) s later).countP storageDenied <
      Cursor.turns 16 s.data.entries.keys s.data.cursor key := by
  induction later with
  | nil => exact fun _ _ _ _ _ => Cursor.turns_pos
  | cons call later ih =>
    intro s hs hfresh hmem hdue hcalls
    rw [List.forall_mem_cons] at hcalls
    obtain ⟨⟨hrequest, hlate⟩, hcalls⟩ := hcalls
    have heta := (Prod.mk.eta (p := serve capacity store call s)).symm
    obtain ⟨hserved, hstep⟩ := serve_attemptStep hs.unpoisoned heta
    have hsubset := swept_keys_subset call.reading s.data
    have hswept : subject.key ∉ (swept call.reading s.data).entries.keys := fun h => hfresh (hsubset h)
    have hnot : ¬ (serve capacity store call s).1.Admits key := by
      rintro ⟨hkey, -⟩
      rw [(serve_event call s).2, hrequest] at hkey
      have hsame : subject.key = key := hkey
      rw [← hsame] at hmem
      exact hfresh hmem
    have hcalls' : ∀ c ∈ later, c.request = .tryAdmit subject ∧
        t ≤ max (serve capacity store call s).2.data.now c.reading := by
      intro c hc
      rw [hserved.now_eq]
      exact ⟨(hcalls c hc).1, (hcalls c hc).2.trans (max_le_max_right _ hserved.now_le)⟩
    rcases serve_keys hs.unpoisoned heta with ⟨subject', hrequest', -, hdenied, hkeys⟩ | ⟨receipt, outcome, hrequest', -⟩
    · obtain rfl : subject = subject' := by
        rw [hrequest] at hrequest'
        exact AttemptRequest.tryAdmit.inj hrequest'
      by_cases hfull : capacity ≤ (swept call.reading s.data).entries.keys.card
      · -- the shard is still full: nothing was removed, and a turn was taken
        have hsame : (swept call.reading s.data).entries.keys = s.data.entries.keys :=
          Finset.eq_of_subset_of_card_le hsubset (hs.card_le.trans hfull)
        have hkeys' : (serve capacity store call s).2.data.entries.keys = s.data.entries.keys := by
          rcases hkeys with hkeys | ⟨-, hroom, -⟩
          · exact hkeys.trans hsame
          · exact absurd hroom (not_lt.2 hfull)
        have hrest := ih (hs.serve store call) (by rw [hkeys']; exact hfresh) (by rw [hkeys']; exact hmem)
          (hdue.step (hstep key) hlate hnot) hcalls'
        have hturn := serve_turns hs.unpoisoned heta hdue hlate hnot (by rw [hkeys']; exact hmem)
        have hone : (if isCalm call s.data (serve capacity store call s).2.data then 1 else 0) = 1 := by
          unfold isCalm
          simp [hrequest, hkeys']
        rw [Machine.outputs_cons, List.countP_cons_of_pos (hdenied.2 ⟨hswept, hfull⟩)]
        omega
      · have hgranted : ¬ storageDenied (serve capacity store call s).1 = true := by
          rw [hdenied]
          exact fun h => hfull h.2
        have hroom : subject.key ∈ (serve capacity store call s).2.data.entries.keys ∨
            (serve capacity store call s).2.data.entries.keys.card < capacity := by
          rcases hkeys with hkeys | ⟨-, -, hkeys⟩
          · rw [hkeys]
            exact Or.inr (not_le.1 hfull)
          · rw [hkeys]
            exact Or.inl (Finset.mem_insert_self _ _)
        rw [Machine.outputs_cons, List.countP_cons_of_neg hgranted,
          admits_with_room (hs.serve store call) (fun c hc => (hcalls c hc).1) hroom]
        exact Cursor.turns_pos
    · rw [hrequest] at hrequest'
      cases hrequest'

end Serve

end MemoryAttemptLimiter

open MemoryAttemptLimiter in
/-- **Attempt storage is bounded, and pressure is always relieved.** After every run of a limiter: it
has no more entries than its capacity; `cleanup` removes no entry whose lease has not run out, and, as
long as the clock is not at the greatest duration, none whose last failure or lease deadline is less than
the quiet period old; an entry that has been quiet, and whose key is not admitted again, is gone after so
many admissions that insert no new entry; and a fresh subject that is retried alone is denied for want of
room at most so many times. -/
theorem attempt_storage_relieved [Sha2] (capacity : ℕ) (store : StoreId) (calls : List AttemptCall) :
    (after capacity store calls).data.entries.keys.card ≤ capacity ∧
    (∀ reading key entry, (after capacity store calls).data.entries.lookup key = some entry →
      (AttemptState.cleanup { (after capacity store calls).data with
          now := max (after capacity store calls).data.now reading }
        (max (after capacity store calls).data.now reading)).entries.lookup key = none →
      (∀ generation deadline, entry.lease = some (generation, deadline) →
        deadline ≤ max (after capacity store calls).data.now reading) ∧
      ((max (after capacity store calls).data.now reading).nanos < maxNanos →
        entry.origin.nanos + entry.policy.quietPeriod.nanos ≤ (max (after capacity store calls).data.now reading).nanos)) ∧
    (∀ key entry t later, (after capacity store calls).data.entries.lookup key = some entry →
      entry.removable t = true →
      (∀ call ∈ later, t ≤ max (after capacity store calls).data.now call.reading) →
      (∀ event ∈ Machine.outputs (serve capacity store) (after capacity store calls) later, ¬ event.Admits key) →
      (capacity + 15) / 16 + 2 ≤ calmAdmits capacity store (after capacity store calls) later →
      (Machine.final (serve capacity store) (after capacity store calls) later).data.entries.lookup key = none) ∧
    (∀ subject key entry t later, (after capacity store calls).data.entries.lookup subject.key = none →
      (after capacity store calls).data.entries.lookup key = some entry → entry.removable t = true →
      (∀ call ∈ later, call.request = .tryAdmit subject ∧ t ≤ max (after capacity store calls).data.now call.reading) →
      (Machine.outputs (serve capacity store) (after capacity store calls) later).countP storageDenied ≤
        (capacity + 15) / 16 + 1) := by
  have hsound := after_sound capacity store calls
  generalize after capacity store calls = s at hsound
  have hturns : ∀ key, Cursor.turns 16 s.data.entries.keys s.data.cursor key ≤ (capacity + 15) / 16 + 2 := by
    intro key
    have hcard := hsound.card_le
    have hle := @Cursor.turns_le _ _ 16 s.data.entries.keys s.data.cursor key
    omega
  have hdue : ∀ {key entry t}, s.data.entries.lookup key = some entry → entry.removable t = true → Due key t s.data := by
    intro key entry t hentry hquiet e he
    rw [hentry, Option.mem_some] at he
    exact he ▸ hquiet
  refine ⟨hsound.card_le, ?_, ?_, ?_⟩
  · intro reading key entry hentry hgone
    have hcleaned := swept_cleaned reading s.data key
    rw [hentry] at hcleaned
    rcases hcleaned with hkept | ⟨e, he, hquiet, -⟩
    · -- an entry that the cleanup left is not gone
      exact absurd (hkept.symm.trans hgone) (by simp)
    · obtain rfl : entry = e := Option.some.inj he
      refine ⟨?_, ?_⟩
      · intro generation deadline hlease
        have hle := AttemptEntry.origin_le_of_removable hquiet
        unfold AttemptEntry.origin at hle
        rw [hlease] at hle
        exact hle
      · intro hbelow
        have hle : min (entry.origin.nanos + entry.policy.quietPeriod.duration.nanos) maxNanos ≤
            (max s.data.now reading).nanos := AttemptEntry.removable_iff.1 hquiet
        rw [QuotaPeriod.duration_nanos] at hle
        omega
  · intro key entry t later hentry hquiet hlate hnot hcalm
    by_contra hkept
    have hmem := not_not.1 (mt Finmap.notMem_keys_iff.1 hkept)
    have hbound := final_turns hsound.unpoisoned (hdue hentry hquiet) hlate hnot hmem
    -- each calm admission uses a turn up, and an entry that is left has a turn to come
    have hpos := @Cursor.turns_pos _ _ 16 (Machine.final (serve capacity store) s later).data.entries.keys
      (Machine.final (serve capacity store) s later).data.cursor key
    have hle := hturns key
    omega
  · intro subject key entry t later hfresh hentry hquiet hcalls
    have hlt := @storageDenied_lt_turns _ capacity store key t subject later s hsound
      (Finmap.notMem_keys_iff.2 hfresh) (Finmap.mem_keys_iff.2 ⟨entry, hentry⟩) (hdue hentry hquiet) hcalls
    have hle := hturns key
    omega

open MemoryAttemptLimiter in
/-- One identity has the only slot, and another has been denied for want of room. -/
def slotTaken : List AttemptCall :=
  [⟨Duration.fromMillis 0, .tryAdmit ⟨loginAttempts, Digest.replicate 1⟩⟩,
    ⟨Duration.fromMillis 50, .tryAdmit ⟨loginAttempts, Digest.replicate 2⟩⟩]

/-- The other identity retries when the lease has run out and the quiet period has passed. -/
def slotRetries : List AttemptCall :=
  [120, 121, 122, 123].map fun millis =>
    ⟨Duration.fromMillis millis, .tryAdmit ⟨loginAttempts, Digest.replicate 2⟩⟩

open MemoryAttemptLimiter in
/-- The first retry is still denied: the cursor has just passed the quiet entry. The second removes it. -/
theorem attempt_storage_relieved_retries :
    letI := vectorSha2
    (Machine.final (serve 1 3) (after 1 3 slotTaken) slotRetries).data.entries.lookup
        ⟨loginAttempts.fingerprint, Digest.replicate 1⟩ = none ∧
      (Machine.outputs (serve 1 3) (after 1 3 slotTaken) slotRetries).countP storageDenied ≤ 2 := by
  let := vectorSha2
  have hquiet : ((after 1 3 slotTaken).data.entries.lookup ⟨loginAttempts.fingerprint, Digest.replicate 1⟩).any
      (fun entry => entry.removable (Duration.fromMillis 120)) = true := by decide +kernel
  obtain ⟨entry, hentry, hremovable⟩ := (Option.any_eq_true ..).1 hquiet
  have hlate : ∀ call ∈ slotRetries,
      Duration.fromMillis 120 ≤ max (after 1 3 slotTaken).data.now call.reading := by decide +kernel
  have hsame : ∀ call ∈ slotRetries, call.request = .tryAdmit ⟨loginAttempts, Digest.replicate 2⟩ := by
    intro call hcall
    obtain ⟨millis, -, rfl⟩ := List.mem_map.1 hcall
    rfl
  have hothers : ∀ event ∈ Machine.outputs (serve 1 3) (after 1 3 slotTaken) slotRetries,
      event.request.key ≠ ⟨loginAttempts.fingerprint, Digest.replicate 1⟩ := by decide +kernel
  -- the denied retry and the last two insert nothing
  have hcalm : 3 ≤ calmAdmits 1 3 (after 1 3 slotTaken) slotRetries := by decide +kernel
  have hfresh : (after 1 3 slotTaken).data.entries.lookup
      (AttemptSubject.key ⟨loginAttempts, Digest.replicate 2⟩) = none := by
    rw [← Option.isNone_iff_eq_none]
    decide +kernel
  obtain ⟨-, -, hrelieved, hretried⟩ := attempt_storage_relieved 1 3 slotTaken
  exact ⟨hrelieved _ entry _ _ hentry hremovable hlate (fun event hevent hadmits => hothers event hevent hadmits.1)
      hcalm, hretried _ _ entry _ _ hfresh hentry hremovable fun call hcall => ⟨hsame call hcall, hlate call hcall⟩⟩

open MemoryAttemptLimiter in
/-- At the greatest duration an instant and its quiet period are the same, and the next admission
removes the entry of a lease whose deadline is no time ago. -/
theorem cleanup_at_greatest_duration :
    letI := vectorSha2
    ∃ entry generation deadline, (after 1 3 [⟨⟨maxNanos, le_rfl⟩, .tryAdmit ⟨loginAttempts, Digest.replicate 1⟩⟩]).data.entries.lookup
        ⟨loginAttempts.fingerprint, Digest.replicate 1⟩ = some entry ∧
      (Machine.final (serve 1 3) new [⟨⟨maxNanos, le_rfl⟩, .tryAdmit ⟨loginAttempts, Digest.replicate 1⟩⟩,
        ⟨⟨maxNanos, le_rfl⟩, .tryAdmit ⟨loginAttempts, Digest.replicate 2⟩⟩]).data.entries.lookup
        ⟨loginAttempts.fingerprint, Digest.replicate 1⟩ = none ∧
      entry.lease = some (generation, deadline) ∧
      ¬ deadline.nanos + entry.policy.quietPeriod.nanos ≤ maxNanos := by
  let := vectorSha2
  have hlease : ((after 1 3 [⟨⟨maxNanos, le_rfl⟩, .tryAdmit ⟨loginAttempts, Digest.replicate 1⟩⟩]).data.entries.lookup
      ⟨loginAttempts.fingerprint, Digest.replicate 1⟩).map (fun e => (e.lease, e.policy.quietPeriod.nanos)) =
        some (some (1, ⟨maxNanos, le_rfl⟩), loginAttempts.quietPeriod.nanos) := by decide +kernel
  obtain ⟨entry, hentry, heq⟩ := Option.map_eq_some_iff.1 hlease
  rw [Prod.mk.injEq] at heq
  refine ⟨entry, 1, ⟨maxNanos, le_rfl⟩, hentry, ?_, heq.1, ?_⟩
  · rw [← Option.isNone_iff_eq_none]
    decide +kernel
  · rw [heq.2]
    decide

end Runlimit
