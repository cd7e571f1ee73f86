import Runlimit.Spec.Reference
import Runlimit.Proof.Prim

/-!
# The representation of one shard

`Shard.Inv` ties the expiration index to the entries and bounds them. Under it, `replace` and
`prune_expired` never fail an assertion and are the pure functions `put` and `prune`
(`replace_eq`, `pruneExpired_eq`). What a shard means is the reference shard `Shard.abs`: the
entries that are live at the time it has observed. Bounded removal does not change that
meaning (`abs_prune`), and it either leaves nothing expired or frees its whole budget
(`prune_clean_or_slack`).
-/

namespace Runlimit

namespace Shard

variable {E : Type} {s : Shard E} {now m : ℕ}

/-- The expiration index agrees with the entries, and nothing outlives the portable window. -/
structure Indexed (s : Shard E) : Prop where
  index : ∀ e : Expiration, e ∈ s.expirations ↔
    ∃ entry, s.entries.lookup e.key = some entry ∧ entry.expiresAtMillis = e.expiresAtMillis
  expires_le : ∀ key entry, s.entries.lookup key = some entry →
    entry.expiresAtMillis ≤ s.latestObservedMillis + maxWindowMillis
  observed_le : s.latestObservedMillis ≤ maxMillis

/-- The representation invariant. -/
structure Inv (s : Shard E) : Prop extends Indexed s where
  used_le : s.used ≤ s.capacity
  capacity_le : s.capacity ≤ usizeMax

theorem Inv.new {capacity : ℕ} (h : capacity ≤ usizeMax) : (Shard.new capacity : Shard E).Inv where
  index e := by simp [Shard.new]
  expires_le key entry h := by simp [Shard.new] at h
  observed_le := Nat.zero_le _
  used_le := Nat.zero_le _
  capacity_le := h

/-- There is one expiration for each entry. -/
theorem Indexed.card_expirations_le (hs : s.Indexed) : s.expirations.card ≤ s.used := by
  refine Finset.card_le_card_of_injOn Expiration.key ?_ ?_
  · intro e he
    obtain ⟨entry, hentry, -⟩ := (hs.index e).1 he
    exact Finmap.mem_keys_iff.2 ⟨entry, hentry⟩
  · intro a ha b hb hkey
    obtain ⟨entry, hentry, hexpires⟩ := (hs.index a).1 ha
    obtain ⟨entry', hentry', hexpires'⟩ := (hs.index b).1 hb
    rw [hkey, hentry', Option.some.injEq] at hentry
    subst hentry
    exact Expiration.ext (hexpires.symm.trans hexpires') hkey

/-- The clock moves on. -/
theorem Inv.record (hs : s.Inv) (hnow : s.latestObservedMillis ≤ now) (hmax : now ≤ maxMillis) :
    (s.recordObservedMillis now).Inv where
  index := hs.index
  expires_le key entry h := by
    have := hs.expires_le key entry h
    exact this.trans (Nat.add_le_add_right hnow _)
  observed_le := hmax
  used_le := hs.used_le
  capacity_le := hs.capacity_le

/-! ## Entries -/

/-- The entry of a key, unless it has expired. -/
def live (s : Shard E) (key : CounterKey) (now : ℕ) : Option (StoredEntry E) :=
  (s.entries.lookup key).filter fun entry => decide (now < entry.expiresAtMillis)

/-- The entry is stored and has not expired. -/
theorem live_eq_some {key : CounterKey} {entry : StoredEntry E} :
    s.live key now = some entry ↔ s.entries.lookup key = some entry ∧ now < entry.expiresAtMillis := by
  unfold live
  rw [Option.filter_eq_some_iff, decide_eq_true_eq]

/-- `active_entry` reads the live entry. -/
theorem activeEntry_eq (s : Shard E) (key : CounterKey) (now : ℕ) :
    s.activeEntry key now = (s.live key now).map fun entry => (entry.value, entry.expiresAtMillis) := by
  unfold activeEntry live
  cases s.entries.lookup key with
  | none => rfl
  | some entry =>
    by_cases h : now < entry.expiresAtMillis
    · simp [h]
    · simp [h, Nat.not_lt.1 h]

/-- `contains_key` counts an expired entry that is still stored. -/
theorem containsKey_iff {key : CounterKey} : s.containsKey key = true ↔ key ∈ s.entries.keys := by
  unfold containsKey
  rw [Finmap.mem_keys, Finmap.lookup_isSome]

/-- The capacity test of the stores. -/
theorem noRoom_iff {key : CounterKey} :
    (!s.containsKey key && decide (s.capacity ≤ s.used)) = true ↔
      key ∉ s.entries.keys ∧ s.capacity ≤ s.used := by
  rw [Bool.and_eq_true, Bool.not_eq_true', decide_eq_true_eq, ← Bool.not_eq_true, containsKey_iff]

/-! ## Storing -/

/-- `replace`, without its assertions. -/
def put (s : Shard E) (key : CounterKey) (entry : StoredEntry E) : Shard E :=
  { s with
    entries := s.entries.insert key entry
    expirations := insert ⟨entry.expiresAtMillis, key⟩ <|
      match s.entries.lookup key with
      | some previous => s.expirations.erase ⟨previous.expiresAtMillis, key⟩
      | none => s.expirations }

@[simp]
theorem put_entries (key : CounterKey) (entry : StoredEntry E) :
    (s.put key entry).entries = s.entries.insert key entry := rfl

@[simp]
theorem put_capacity (key : CounterKey) (entry : StoredEntry E) :
    (s.put key entry).capacity = s.capacity := rfl

@[simp]
theorem put_observed (key : CounterKey) (entry : StoredEntry E) :
    (s.put key entry).latestObservedMillis = s.latestObservedMillis := rfl

/-- One index entry for the key that is stored, and the others as they were. -/
theorem put_expirations (hs : s.Indexed) (key : CounterKey) (entry : StoredEntry E) (e : Expiration) :
    e ∈ (s.put key entry).expirations ↔
      e = ⟨entry.expiresAtMillis, key⟩ ∨ (e.key ≠ key ∧ e ∈ s.expirations) := by
  unfold put
  simp only [Finset.mem_insert]
  refine or_congr_right ?_
  cases hl : s.entries.lookup key with
  | none =>
    -- a fresh key has no index entry to remove
    constructor
    · intro he
      refine ⟨?_, he⟩
      rintro rfl
      obtain ⟨entry', h', -⟩ := (hs.index e).1 he
      rw [hl] at h'
      cases h'
    · exact And.right
  | some previous =>
    rw [Finset.mem_erase]
    constructor
    · rintro ⟨hne, he⟩
      refine ⟨?_, he⟩
      rintro rfl
      obtain ⟨entry', h', hexp⟩ := (hs.index e).1 he
      rw [hl] at h'
      cases h'
      exact hne (Expiration.ext hexp.symm rfl)
    · rintro ⟨hne, he⟩
      refine ⟨?_, he⟩
      rintro rfl
      exact hne rfl

/-- Storing takes a slot for a new key only. -/
theorem used_put (key : CounterKey) (entry : StoredEntry E) :
    (s.put key entry).used = if key ∈ s.entries.keys then s.used else s.used + 1 := by
  unfold used
  rw [put_entries, Finmap.keys_insert]
  split
  · rename_i h; rw [Finset.insert_eq_of_mem h]
  · rename_i h; exact Finset.card_insert_of_notMem h

/-- Storing keeps the index. -/
theorem Indexed.put (hs : s.Indexed) {key : CounterKey} {entry : StoredEntry E}
    (hexp : entry.expiresAtMillis ≤ s.latestObservedMillis + maxWindowMillis) :
    (s.put key entry).Indexed where
  index e := by
    rw [put_expirations hs, put_entries, Finmap.lookup_insert_if]
    split
    · rename_i hkey
      simp only [Option.some.injEq]
      constructor
      · rintro (rfl | ⟨hne, -⟩)
        · exact ⟨entry, rfl, rfl⟩
        · exact absurd hkey hne
      · rintro ⟨_, rfl, h⟩
        exact Or.inl (Expiration.ext h.symm hkey)
    · rename_i hkey
      rw [← hs.index e]
      constructor
      · rintro (rfl | ⟨-, he⟩)
        · exact absurd rfl hkey
        · exact he
      · intro he
        exact Or.inr ⟨hkey, he⟩
  expires_le key' entry' h := by
    rw [put_entries, Finmap.lookup_insert_if] at h
    split at h
    · cases h; exact hexp
    · exact hs.expires_le key' entry' h
  observed_le := hs.observed_le

/-- Storing keeps the invariant, if the key is there already or the shard has room. -/
theorem Inv.put (hs : s.Inv) {key : CounterKey} {entry : StoredEntry E}
    (hexp : entry.expiresAtMillis ≤ s.latestObservedMillis + maxWindowMillis)
    (hroom : key ∈ s.entries.keys ∨ s.used < s.capacity) : (s.put key entry).Inv where
  toIndexed := hs.toIndexed.put hexp
  used_le := by
    have := hs.used_le
    rw [used_put, put_capacity]
    split
    · exact this
    · rename_i h
      rcases hroom with h' | h'
      · exact absurd h' h
      · exact h'
  capacity_le := hs.capacity_le

/-- **`replace` never fails an assertion.** -/
theorem replace_eq (hs : s.Indexed) (key : CounterKey) (value : E) (expiresAtMillis : ℕ) :
    s.replace key value expiresAtMillis =
      .ok ((s.entries.lookup key).map (·.value), s.put key ⟨value, expiresAtMillis⟩) := by
  have hnone : ∀ e : Expiration, e.key = key → s.entries.lookup key = none → e ∉ s.expirations := by
    rintro e rfl hl he
    obtain ⟨entry', h', -⟩ := (hs.index e).1 he
    rw [hl] at h'
    cases h'
  unfold replace put
  cases hl : s.entries.lookup key with
  | none =>
    simp only [except_pure, except_ok_bind]
    -- the first assertion: nothing is indexed under a key that is not stored
    rw [debugAssert_pos (hnone ⟨expiresAtMillis, key⟩ rfl hl)]
    rfl
  | some previous =>
    have hmem : (⟨previous.expiresAtMillis, key⟩ : Expiration) ∈ s.expirations :=
      (hs.index _).2 ⟨previous, hl, rfl⟩
    -- an index entry of the key that is not the erased one would be of a second stored entry
    have hnot : (⟨expiresAtMillis, key⟩ : Expiration) ∉
        s.expirations.erase ⟨previous.expiresAtMillis, key⟩ := by
      rw [Finset.mem_erase]
      rintro ⟨hne, he⟩
      obtain ⟨entry', h', hexp⟩ := (hs.index _).1 he
      rw [hl] at h'
      cases h'
      exact hne (Expiration.ext hexp.symm rfl)
    simp only [except_pure]
    rw [debugAssert_pos hmem, except_ok_bind, except_ok_bind, debugAssert_pos hnot]
    rfl

/-- Updating the value of a stored entry in place stores it with the same expiry. -/
theorem updateValue_eq (hs : s.Indexed) {key : CounterKey} {entry : StoredEntry E}
    (h : s.entries.lookup key = some entry) (update : E → E) :
    s.updateValue key update = some (s.put key ⟨update entry.value, entry.expiresAtMillis⟩) := by
  unfold updateValue put
  have hmem : (⟨entry.expiresAtMillis, key⟩ : Expiration) ∈ s.expirations :=
    (hs.index _).2 ⟨entry, h, rfl⟩
  rw [h]
  simp only [Option.map_some, Finset.insert_erase hmem]

/-! ## Removing expired entries -/

/-- `prune_expired`, without its assertion and its count. -/
def prune (now : ℕ) : ℕ → Shard E → Shard E
  | 0, s => s
  | m + 1, s =>
    match s.expirations.first with
    | none => s
    | some expiration =>
      if now < expiration.expiresAtMillis then s
      else prune now m
        { s with
          entries := s.entries.erase expiration.key
          expirations := s.expirations.erase expiration }

/-- What removing at most `m` entries that have expired at `now` leaves. -/
structure Pruned (now m : ℕ) (s s' : Shard E) : Prop where
  capacity_eq : s'.capacity = s.capacity
  observed_eq : s'.latestObservedMillis = s.latestObservedMillis
  lookup_eq : ∀ key, s'.entries.lookup key = s.entries.lookup key ∨
    (s'.entries.lookup key = none ∧ ∃ e, s.entries.lookup key = some e ∧ e.expiresAtMillis ≤ now)
  used_le : s'.used ≤ s.used ∧ s.used ≤ s'.used + m
  done : s'.used + m = s.used ∨ ∀ key e, s'.entries.lookup key = some e → now < e.expiresAtMillis

/-- Removing one entry together with its index entry. -/
theorem Inv.remove (hs : s.Inv) {e : Expiration} (he : e ∈ s.expirations) :
    ({ s with entries := s.entries.erase e.key, expirations := s.expirations.erase e } : Shard E).Inv ∧
      (s.entries.erase e.key).keys.card + 1 = s.used := by
  obtain ⟨entry, hl, hexp⟩ := (hs.index e).1 he
  have hkeys : (s.entries.erase e.key).keys = s.entries.keys.erase e.key := Finmap.keys_erase e.key _
  have hmem : e.key ∈ s.entries.keys := Finmap.mem_keys_iff.2 ⟨entry, hl⟩
  have hcard : (s.entries.erase e.key).keys.card + 1 = s.used := by
    rw [hkeys]
    exact Finset.card_erase_add_one hmem
  refine ⟨⟨⟨?_, ?_, hs.observed_le⟩, ?_, hs.capacity_le⟩, hcard⟩
  · intro e'
    rw [Finset.mem_erase, Finmap.lookup_erase_if, hs.index e']
    split
    · -- the key that goes: its one index entry goes with it
      rename_i hkey
      constructor
      · rintro ⟨hne, entry', hl', hexp'⟩
        rw [hkey, hl] at hl'
        cases hl'
        exact absurd (Expiration.ext (hexp'.symm.trans hexp) hkey) hne
      · rintro ⟨_, h, -⟩; cases h
    · rename_i hkey
      constructor
      · exact And.right
      · intro h
        refine ⟨?_, h⟩
        rintro rfl
        exact hkey rfl
  · intro key entry' h
    rw [Finmap.lookup_erase_if] at h
    split at h
    · cases h
    · exact hs.expires_le key entry' h
  · have := hs.used_le
    unfold used at *
    simp only
    omega

/-- If the first index entry is live, every entry is. -/
theorem Inv.live_of_first (hs : s.Inv) {e : Expiration} (hfirst : s.expirations.first = some e)
    (hlt : now < e.expiresAtMillis) {key : CounterKey} {entry : StoredEntry E}
    (h : s.entries.lookup key = some entry) : now < entry.expiresAtMillis := by
  obtain ⟨-, hmin⟩ := Finset.first_eq_some.1 hfirst
  have hle := hmin ⟨entry.expiresAtMillis, key⟩ ((hs.index _).2 ⟨entry, h, rfl⟩)
  have hle' : e.expiresAtMillis ≤ entry.expiresAtMillis := by
    -- the index is ordered by expiry before the key
    rcases Prod.Lex.le_iff.1 hle with h' | h'
    · exact h'.le
    · exact h'.1.le
  omega

/-- **Bounded removal.** Only expired entries go, the invariant stays, and the budget is
used up unless nothing expired is left. -/
theorem prune_spec (now m : ℕ) : ∀ {s : Shard E}, s.Inv →
    (prune now m s).Inv ∧ Pruned now m s (prune now m s) := by
  induction m with
  | zero =>
    intro s hs
    exact ⟨hs, rfl, rfl, fun key => Or.inl rfl, ⟨le_rfl, le_rfl⟩, Or.inl rfl⟩
  | succ m ih =>
    intro s hs
    unfold prune
    split
    · rename_i hfirst
      -- an empty index: no entry is stored, so none has expired
      refine ⟨hs, rfl, rfl, fun key => Or.inl rfl, ⟨le_rfl, Nat.le_add_right _ _⟩, Or.inr ?_⟩
      intro key entry h
      have hempty := Finset.first_eq_none.1 hfirst
      have := (hs.index ⟨entry.expiresAtMillis, key⟩).2 ⟨entry, h, rfl⟩
      rw [hempty] at this
      exact absurd this (Finset.notMem_empty _)
    · rename_i e hfirst
      split
      · rename_i hlt
        exact ⟨hs, rfl, rfl, fun key => Or.inl rfl, ⟨le_rfl, Nat.le_add_right _ _⟩,
          Or.inr fun key entry h => hs.live_of_first hfirst hlt h⟩
      · rename_i hlt
        -- the first entry has expired: it goes, and the rest of the budget is for what is left
        obtain ⟨he, -⟩ := Finset.first_eq_some.1 hfirst
        obtain ⟨hs', hcard⟩ := hs.remove he
        obtain ⟨hinv, hpruned⟩ := ih hs'
        refine ⟨hinv, hpruned.capacity_eq, hpruned.observed_eq, ?_, ?_, ?_⟩
        · intro key
          have hkey := hpruned.lookup_eq key
          simp only [Finmap.lookup_erase_if] at hkey
          by_cases hk : key = e.key
          · rw [if_pos hk] at hkey
            obtain ⟨entry, hl, hexp⟩ := (hs.index e).1 he
            rw [hk] at hkey ⊢
            refine Or.inr ⟨?_, entry, hl, by omega⟩
            rcases hkey with h | ⟨h, -⟩
            · exact h
            · exact h
          · rw [if_neg hk] at hkey
            exact hkey
        · have h1 := hpruned.used_le
          unfold used at *
          simp only at h1
          omega
        · rcases hpruned.done with h | h
          · left
            unfold used at *
            simp only at h
            omega
          · exact Or.inr h

/-- **`prune_expired` never fails its assertion**, and counts what it removed. -/
theorem pruneExpired_eq (now m : ℕ) : ∀ {s : Shard E}, s.Inv →
    s.pruneExpired now m = .ok (s.used - (prune now m s).used, prune now m s) := by
  induction m with
  | zero =>
    intro s _
    unfold pruneExpired prune
    rw [Nat.sub_self]
    rfl
  | succ m ih =>
    intro s hs
    unfold pruneExpired prune
    cases hfirst : s.expirations.first with
    | none => simp only [Nat.sub_self]; rfl
    | some e =>
      by_cases hlt : now < e.expiresAtMillis
      · simp only [if_pos hlt, Nat.sub_self]; rfl
      · obtain ⟨he, -⟩ := Finset.first_eq_some.1 hfirst
        obtain ⟨hs', hcard⟩ := hs.remove he
        obtain ⟨entry, hl, hexp⟩ := (hs.index e).1 he
        obtain ⟨-, hpruned⟩ := prune_spec now m hs'
        -- the assertion: the removed entry has the expiry that the index gave it
        have hassert : (s.entries.lookup e.key).map (·.expiresAtMillis) = some e.expiresAtMillis := by
          rw [hl, Option.map_some, hexp]
        simp only [if_neg hlt]
        have hused := hpruned.used_le
        have hcapacity := hs.used_le.trans hs.capacity_le
        rw [debugAssert_pos hassert, except_ok_bind, ih hs', except_ok_bind, hl]
        simp only [Option.isSome_some, if_true]
        unfold used at *
        simp only at hused ⊢
        rw [addUsize_eq (by omega), except_ok_bind, except_pure]
        refine congrArg Except.ok (Prod.ext ?_ rfl)
        simp only
        omega

/-! ## What a shard means -/

/-- The live entries, at the time the shard has observed. -/
def abs (s : Shard E) : RefShard E :=
  ⟨s.latestObservedMillis, s.entries.filter fun _ entry =>
    decide (s.latestObservedMillis < entry.expiresAtMillis)⟩

/-- An empty shard means an empty shard. -/
theorem abs_new (capacity : ℕ) : (Shard.new capacity : Shard E).abs = RefShard.new := by
  refine RefShard.ext rfl (Finmap.ext_lookup fun key => ?_)
  unfold abs RefShard.new Shard.new
  simp

/-- Advancing the meaning of a shard leaves its live entries. -/
theorem lookup_advance_abs (hnow : s.latestObservedMillis ≤ now) (key : CounterKey) :
    (s.abs.advance now).entries.lookup key = s.live key now := by
  unfold abs RefShard.advance live
  simp only [Finmap.lookup_filter, Option.filter_filter]
  congr 1
  funext entry
  rw [← Bool.decide_and]
  exact decide_eq_decide.2 ⟨And.right, fun h => ⟨by omega, h⟩⟩

theorem advance_abs_entries (hnow : s.latestObservedMillis ≤ now) :
    (s.abs.advance now).entries =
      s.entries.filter fun _ entry => decide (now < entry.expiresAtMillis) := by
  refine Finmap.ext_lookup fun key => ?_
  rw [lookup_advance_abs hnow, Finmap.lookup_filter]
  rfl

/-- Removing expired entries leaves the live entries alone. -/
theorem live_prune (hs : s.Inv) (key : CounterKey) : (prune now m s).live key now = s.live key now := by
  obtain ⟨-, hpruned⟩ := prune_spec now m hs
  unfold live
  rcases hpruned.lookup_eq key with h | ⟨h, e, he, hexp⟩
  · rw [h]
  · rw [h, he, Option.filter_none, Option.filter_some_neg (by simpa using hexp)]

/-- **Bounded removal is full removal, seen from outside.** -/
theorem abs_prune (hs : s.Inv) (hnow : s.latestObservedMillis ≤ now) (hmax : now ≤ maxMillis) :
    (prune now m (s.recordObservedMillis now)).abs = s.abs.advance now := by
  obtain ⟨-, hpruned⟩ := prune_spec now m (hs.record hnow hmax)
  have hobs : (prune now m (s.recordObservedMillis now)).latestObservedMillis = now :=
    hpruned.observed_eq
  refine RefShard.ext hobs (Finmap.ext_lookup fun key => ?_)
  rw [lookup_advance_abs hnow]
  unfold abs
  simp only [Finmap.lookup_filter, hobs]
  exact live_prune (hs.record hnow hmax) key

/-- Storing a live entry, seen from outside. -/
theorem abs_put {key : CounterKey} {entry : StoredEntry E}
    (hexp : s.latestObservedMillis < entry.expiresAtMillis) :
    (s.put key entry).abs = s.abs.put key entry := by
  refine RefShard.ext rfl (Finmap.ext_lookup fun key' => ?_)
  unfold abs RefShard.put
  simp only [Finmap.lookup_filter, put_entries, put_observed, Finmap.lookup_insert_if]
  split
  · simp [hexp]
  · rfl

/-- Nothing that has expired at `now` is stored. -/
def Clean (now : ℕ) (s : Shard E) : Prop :=
  ∀ key entry, s.entries.lookup key = some entry → now < entry.expiresAtMillis

theorem Clean.abs_entries (hclean : s.Clean s.latestObservedMillis) : s.abs.entries = s.entries := by
  refine Finmap.ext_lookup fun key => ?_
  unfold abs
  rw [Finmap.lookup_filter]
  cases hl : s.entries.lookup key with
  | none => rfl
  | some entry => simp [hclean key entry hl]

/-- **The counting argument.** After removing at most `m` entries a shard is clean, or the
whole budget is free. -/
theorem prune_clean_or_slack (hs : s.Inv) (now m : ℕ) :
    (prune now m s).Clean now ∨ (prune now m s).used + m ≤ (prune now m s).capacity := by
  obtain ⟨-, hpruned⟩ := prune_spec now m hs
  rcases hpruned.done with h | h
  · right
    have := hs.used_le
    rw [hpruned.capacity_eq]
    omega
  · exact Or.inl h

/-- Expired entries that are still stored take slots too. -/
theorem card_abs_le : s.abs.entries.keys.card ≤ s.used := by
  unfold abs used
  rw [Finmap.keys_filter]
  exact Finset.card_filter_le _ _

/-- The denial of a full, clean shard names the first expiry. -/
theorem storageCapacityDenial_eq (hs : s.Inv) (hclean : s.Clean s.latestObservedMillis) :
    s.storageCapacityDenial s.latestObservedMillis = .ok (s.abs.full s.latestObservedMillis) := by
  have hfirst : s.abs.entries.range (·.expiresAtMillis) = s.expirations.image (·.expiresAtMillis) := by
    ext t
    rw [hclean.abs_entries, Finmap.mem_range, Finset.mem_image]
    constructor
    · rintro ⟨key, entry, hl, rfl⟩
      exact ⟨⟨entry.expiresAtMillis, key⟩, (hs.index _).2 ⟨entry, hl, rfl⟩, rfl⟩
    · rintro ⟨e, he, rfl⟩
      obtain ⟨entry, hl, hexp⟩ := (hs.index e).1 he
      exact ⟨e.key, entry, hl, hexp⟩
  unfold storageCapacityDenial capacityRetryAfterMillis RefShard.full
  rw [hfirst]
  cases h : s.expirations.first with
  | none =>
    rw [Finset.first_eq_none.1 h, Finset.image_empty, Finset.first_eq_none.2 rfl]
    rfl
  | some e =>
    obtain ⟨he, hmin⟩ := Finset.first_eq_some.1 h
    obtain ⟨entry, hl, hexp⟩ := (hs.index e).1 he
    have hlt := hclean _ _ hl
    have hle := hs.expires_le _ _ hl
    have himage : (s.expirations.image (·.expiresAtMillis)).first = some e.expiresAtMillis := by
      refine Finset.first_eq_some.2 ⟨Finset.mem_image_of_mem _ he, ?_⟩
      intro t ht
      obtain ⟨e', he', rfl⟩ := Finset.mem_image.1 ht
      rcases Prod.Lex.le_iff.1 (hmin e' he') with h' | h'
      · exact h'.le
      · exact h'.1.le
    have hmax : max (e.expiresAtMillis - s.latestObservedMillis) 1 =
        e.expiresAtMillis - s.latestObservedMillis := max_eq_left (by omega)
    have hu64 : e.expiresAtMillis - s.latestObservedMillis ≤ u64Max := by
      unfold maxWindowMillis at hle
      unfold u64Max
      omega
    rw [himage]
    simp only [Option.map_some, hmax, if_pos hu64]
    rfl

end Shard

end Runlimit
