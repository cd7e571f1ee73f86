import Runlimit.Proof.AttemptLocks
import Runlimit.Proof.PgBackoff

/-!
# The slots of the attempts

The rows of a shard have different slots, whatever the interleaving. Only an admission changes which rows a shard has,
and only under the advisory lock of the shard; a host transaction rewrites rows where they are. So between its
statements an admission may rely on what it has counted (`AdmitPhase.Seated`), and where it finds fewer rows than its
maximum, one of the first slots is free, which its `INSERT` then takes.
-/

namespace Runlimit

namespace PgAttempts

/-! ## Slots and rows of a shard -/

section Slots

variable {rows rows' : AttemptRows} {key : AttemptKey} {shard : CapacityShard} {slot maximum : ℕ}

/-- The slot of a key that has a row. -/
def slotOf (rows : AttemptRows) (key : AttemptKey) : Option ℕ := (rows.lookup key).map AttemptRow.capacitySlot

theorem slotOf_eq_none : slotOf rows key = none ↔ rows.lookup key = none := Option.map_eq_none_iff

theorem slotOf_eq_some : slotOf rows key = some slot ↔ ∃ row, rows.lookup key = some row ∧ row.capacitySlot = slot :=
  Option.map_eq_some_iff

/-- A stored key has a slot. -/
theorem mem_keys_iff_slotOf : key ∈ rows.keys ↔ slotOf rows key ≠ none := by
  rw [Ne, slotOf_eq_none, ← Finmap.notMem_keys_iff, not_not]

/-- The slots in use are those of the stored keys. -/
theorem mem_slots : slot ∈ slots shard rows ↔ ∃ key, capacityShard key = shard ∧ slotOf rows key = some slot := by
  unfold slots
  rw [Finmap.mem_range]
  constructor
  · rintro ⟨key, row, hrow, hslot⟩
    rw [Finmap.lookup_filter, Option.filter_eq_some_iff] at hrow
    exact ⟨key, of_decide_eq_true hrow.2, slotOf_eq_some.2 ⟨row, hrow.1, hslot⟩⟩
  · rintro ⟨key, hshard, hslot⟩
    obtain ⟨row, hrow, hslot⟩ := slotOf_eq_some.1 hslot
    exact ⟨key, row, by rw [Finmap.lookup_filter, hrow, Option.filter_some, if_pos (decide_eq_true hshard)], hslot⟩

/-- The occupancy of a shard is a matter of its own keys. -/
theorem occupancy_congr (h : ∀ key, capacityShard key = shard → slotOf rows' key = slotOf rows key) :
    occupancy shard rows' = occupancy shard rows := by
  unfold occupancy
  refine congrArg Finset.card (Finset.ext fun key => ?_)
  rw [Finset.mem_filter, Finset.mem_filter]
  refine and_congr_left fun hshard => ?_
  rw [mem_keys_iff_slotOf, mem_keys_iff_slotOf, h key hshard]

/-- So are its slots in use. -/
theorem slots_congr (h : ∀ key, capacityShard key = shard → slotOf rows' key = slotOf rows key) :
    slots shard rows' = slots shard rows := by
  ext slot
  rw [mem_slots, mem_slots]
  refine exists_congr fun key => and_congr_right fun hshard => ?_
  rw [h key hshard]

/-- Rows that go, and none that come. -/
theorem occupancy_le (h : ∀ key, capacityShard key = shard → slotOf rows key = none → slotOf rows' key = none) :
    occupancy shard rows' ≤ occupancy shard rows := by
  refine Finset.card_le_card fun key hkey => ?_
  rw [Finset.mem_filter, mem_keys_iff_slotOf] at hkey ⊢
  exact ⟨fun hnone => hkey.1 (h key hkey.2 hnone), hkey.2⟩

/-- One row that comes. -/
theorem occupancy_insert_le (key : AttemptKey) (row : AttemptRow) (shard : CapacityShard) :
    occupancy shard (rows.insert key row) ≤ occupancy shard rows + 1 := by
  unfold occupancy
  rw [Finmap.keys_insert, Finset.filter_insert]
  split
  · exact Finset.card_insert_le _ _
  · exact Nat.le_succ _

/-- A shard has as many slots as rows, at most. -/
theorem card_slots_le : (slots shard rows).card ≤ occupancy shard rows := by
  have hsubset : slots shard rows ⊆ (rows.keys.filter fun key => capacityShard key = shard).image fun key =>
      (slotOf rows key).getD 0 := by
    intro slot hslot
    obtain ⟨key, hshard, hslot⟩ := mem_slots.1 hslot
    refine Finset.mem_image.2 ⟨key, Finset.mem_filter.2 ⟨mem_keys_iff_slotOf.2 (by rw [hslot]; nofun), hshard⟩, ?_⟩
    rw [hslot, Option.getD_some]
  exact (Finset.card_le_card hsubset).trans Finset.card_image_le

/-- **Fewer rows than slots leave a slot free.** -/
theorem freeSlot_of_room (h : occupancy shard rows < maximum) :
    ∃ slot, freeSlot shard maximum rows = some slot ∧ slot < maximum ∧ slot ∉ slots shard rows := by
  have hlt : (slots shard rows).card < (Finset.range maximum).card := by
    rw [Finset.card_range]
    exact card_slots_le.trans_lt h
  cases hslot : freeSlot shard maximum rows with
  | none =>
    have hempty := Finset.first_eq_none.1 hslot
    rw [Finset.sdiff_eq_empty_iff_subset] at hempty
    exact absurd (Finset.card_le_card hempty) (Nat.not_le.2 hlt)
  | some slot =>
    have hmem := (Finset.first_eq_some.1 hslot).1
    rw [Finset.mem_sdiff, Finset.mem_range] at hmem
    exact ⟨slot, rfl, hmem⟩

/-- The rows of a shard have different slots. -/
def Slotted (shard : CapacityShard) (rows : AttemptRows) : Prop :=
  ∀ key key' slot, capacityShard key = shard → capacityShard key' = shard → slotOf rows key = some slot →
    slotOf rows key' = some slot → key = key'

/-- And so is that they differ. -/
theorem Slotted.congr (hslotted : Slotted shard rows)
    (h : ∀ key, capacityShard key = shard → slotOf rows' key = slotOf rows key) : Slotted shard rows' := by
  intro key key' slot hkey hkey' hslot hslot'
  rw [h key hkey] at hslot
  rw [h key' hkey'] at hslot'
  exact hslotted key key' slot hkey hkey' hslot hslot'

/-- Rows may go. -/
theorem Slotted.shrink (hslotted : Slotted shard rows)
    (h : ∀ key, capacityShard key = shard → slotOf rows' key = none ∨ slotOf rows' key = slotOf rows key) :
    Slotted shard rows' := by
  have hsome : ∀ {key slot}, capacityShard key = shard → slotOf rows' key = some slot → slotOf rows key = some slot := by
    intro key slot hkey hslot
    rcases h key hkey with hnone | hsame
    · rw [hnone] at hslot
      cases hslot
    · rwa [hsame] at hslot
  intro key key' slot hkey hkey' hslot hslot'
  exact hslotted key key' slot hkey hkey' (hsome hkey hslot) (hsome hkey' hslot')

theorem slotOf_insert (row : AttemptRow) (key' : AttemptKey) :
    slotOf (rows.insert key row) key' = if key' = key then some row.capacitySlot else slotOf rows key' := by
  unfold slotOf
  rw [Finmap.lookup_insert_if]
  split
  · rfl
  · rfl

/-- A row may come, in a free slot. -/
theorem Slotted.insert (hslotted : Slotted shard rows) {row : AttemptRow} (hfree : row.capacitySlot ∉ slots shard rows) :
    Slotted shard (rows.insert key row) := by
  intro one two slot hone htwo hslot hslot'
  rw [slotOf_insert] at hslot hslot'
  split at hslot
  · rename_i hkey
    split at hslot'
    · rename_i hkey'
      rw [hkey, hkey']
    · cases hslot
      exact absurd (mem_slots.2 ⟨two, htwo, hslot'⟩) hfree
  · split at hslot'
    · cases hslot'
      exact absurd (mem_slots.2 ⟨one, hone, hslot⟩) hfree
    · exact hslotted one two slot hone htwo hslot hslot'

/-- Every row can be stored. -/
def Storable (rows : AttemptRows) : Prop := ∀ key row, rows.lookup key = some row → row.storable = true

end Slots

/-! ## Rows that can be stored -/

section Stored

variable {row : AttemptRow} {policy : AttemptPolicy} {nowMs : ℕ} {token : LeaseToken}

/-- A lease that starts by the last timestamp ends in range, with the quiet period after it. -/
theorem lease_le (hnow : nowMs ≤ maxTimestampMs) (policy : AttemptPolicy) {quietMs : ℕ} (hquiet : quietMs ≤ 9007199254740) :
    saturatingAddI64 nowMs policy.lease.millis + quietMs ≤ i64Max := by
  have hlease := policy.lease.le_max
  have hwindow : maxWindowMillis < 2 ^ 44 := by decide
  have hmax : maxTimestampMs < 2 ^ 62 := by decide
  have hi64 : i64Max = 2 ^ 62 + 2 ^ 62 - 1 := by decide
  have hle : saturatingAddI64 nowMs policy.lease.millis ≤ nowMs + policy.lease.millis := min_le_left _ _
  omega

/-- A new row fits its columns. -/
theorem insertedRow_storable (hnow : nowMs ≤ maxTimestampMs) {slot : ℕ} (hslot : slot ≤ 65535) :
    (insertedRow policy slot nowMs token).storable = true := by
  have hquiet := policy.quietPeriod.le_max
  have hwindow : maxWindowMillis = 9007199254740 := by decide
  have hmax : maxTimestampMs ≤ i64Max := by decide
  refine storable_iff.2 ⟨hslot, Nat.zero_le _, hnow.trans hmax, hnow.trans hmax, policy.quietPeriod.pos, ?_, ?_⟩
  · rw [← hwindow]
    exact hquiet
  · exact lease_le hnow policy (hwindow ▸ hquiet)

/-- A row that is granted a lease again fits its columns. -/
theorem updatedRow_storable (hrow : row.storable = true) (hnow : nowMs ≤ maxTimestampMs) {failures lastFailureMs : ℕ}
    (hfailures : failures ≤ u32Max) (hlast : lastFailureMs ≤ i64Max) :
    (updatedRow policy failures lastFailureMs nowMs token row).storable = true := by
  obtain ⟨hslot, -, -, -, hquiet, hquiet', -⟩ := storable_iff.1 hrow
  have hmax : maxTimestampMs ≤ i64Max := by decide
  exact storable_iff.2 ⟨hslot, hfailures, hlast, hnow.trans hmax, hquiet, hquiet', lease_le hnow policy hquiet'⟩

/-- The decision on a stored row: a denial, or an update, which does not find a live lease. -/
theorem judged_cases (hrow : row.storable = true) :
    (∃ denial, judged policy nowMs row = .denied denial ∧ denial ≠ .storageCapacity) ∨
      ∃ failures lastFailureMs, judged policy nowMs row = .updating failures lastFailureMs nowMs ∧
        failures ≤ u32Max ∧ lastFailureMs ≤ i64Max ∧ ∀ leaseUntilMs leaseToken,
          row.lease = some (leaseUntilMs, leaseToken) → leaseUntilMs ≤ nowMs := by
  obtain ⟨-, hfailures, hlast, -, -, -, hexpiry⟩ := storable_iff.1 hrow
  have hu32 : u32Max = 4294967295 := by decide
  -- once the lease is settled the counts stay in range
  have hsettle : ∀ {failures lastFailureMs retryMs : ℕ}, failures ≤ u32Max → lastFailureMs ≤ i64Max →
      (∃ denial, judge.settle policy nowMs failures lastFailureMs retryMs = .ok (.error denial) ∧
          denial ≠ .storageCapacity) ∨
        ∃ failures' lastFailureMs', judge.settle policy nowMs failures lastFailureMs retryMs =
          .ok (.ok (failures', lastFailureMs')) ∧ failures' ≤ u32Max ∧ lastFailureMs' ≤ i64Max := by
    intro failures lastFailureMs retryMs hle hle'
    unfold judge.settle
    split
    · exact Or.inr ⟨0, lastFailureMs, rfl, Nat.zero_le _, hle'⟩
    · split
      · exact Or.inl ⟨_, rfl, nofun⟩
      · exact Or.inr ⟨failures, lastFailureMs, rfl, hle, hle'⟩
  unfold judged judge
  rw [if_neg (by omega)]
  cases hlease : row.lease with
  | none =>
    rcases @hsettle row.failures row.lastFailureMs row.retryAtMs (hu32 ▸ hfailures) hlast with
      ⟨denial, hdenied, hne⟩ | ⟨failures, lastFailureMs, hupdate, hle, hle'⟩
    · exact Or.inl ⟨denial, by simp only [hdenied], hne⟩
    · exact Or.inr ⟨failures, lastFailureMs, by simp only [hupdate], hle, hle', nofun⟩
  | some lease =>
    obtain ⟨leaseUntilMs, leaseToken⟩ := lease
    simp only
    by_cases hlive : nowMs < leaseUntilMs
    · exact Or.inl ⟨.busy (delayOf (leaseUntilMs - nowMs)), by rw [if_pos hlive], nofun⟩
    · -- the deadline is a column value, since the expiry after it is one
      have huntil : leaseUntilMs ≤ i64Max := by
        unfold AttemptRow.expiryMs at hexpiry
        rw [hlease] at hexpiry
        change leaseUntilMs + row.quietMs ≤ i64Max at hexpiry
        omega
      rw [if_neg hlive]
      rcases @hsettle (min (row.failures + 1) u32Max) leaseUntilMs
        (saturatingAddI64 leaseUntilMs (policy.delay (min (row.failures + 1) u32Max)).asMillis) (min_le_right _ _) huntil with
        ⟨denial, hdenied, hne⟩ | ⟨failures, lastFailureMs, hupdate, hle, hle'⟩
      · exact Or.inl ⟨denial, by rw [hdenied], hne⟩
      · refine Or.inr ⟨failures, lastFailureMs, by rw [hupdate], hle, hle', ?_⟩
        intro until' token' hsome
        cases hsome
        exact Nat.not_lt.1 hlive

/-- A completion leaves a row in its slot. -/
theorem completeRow_ok {success : Bool} {fence : Option ℕ} {transactionId : ℕ} {completed : AttemptRow}
    {columns : CompletedColumns}
    (h : completeRow policy token success fence transactionId nowMs row = .ok (some (completed, columns))) :
    completes row token fence transactionId nowMs = true ∧ completed = completedRow policy success nowMs row ∧
      completed.storable = true := by
  unfold completeRow at h
  simp only at h
  split at h
  · rename_i hcompletes
    split at h
    · rename_i hstorable
      cases h
      exact ⟨hcompletes, rfl, hstorable⟩
    · cases h
  · cases h

end Stored

/-! ## What an admission relies on -/

section Seated

variable {committed committed' : AttemptRows} {txn : Txn} {nowMs nowMs' maximum : ℕ} {shard : CapacityShard}
  {key : AttemptKey}

/-- What a cleanup has removed, under the lock of the shard. -/
structure Cleaned (committed : AttemptRows) (nowMs : ℕ) (shard : CapacityShard) (txn : Txn) (removed : List AttemptKey) :
    Prop where
  length_le : removed.length ≤ 16
  locked : ∀ key ∈ removed, key ∈ txn.locked
  gone : ∀ key ∈ removed, txn.own.lookup key = none
  quiet : ∀ key ∈ removed, capacityShard key = shard ∧ ∃ row, committed.lookup key = some row ∧ row.expiryMs ≤ nowMs

/-- An admission that has locked nothing but what its cleanup removed. -/
structure Swept (committed : AttemptRows) (nowMs : ℕ) (shard : CapacityShard) (txn : Txn) : Prop where
  removed : ∃ removed, Cleaned committed nowMs shard txn removed ∧ ∀ key ∈ txn.locked, key ∈ removed

/-- An admission that has also locked the row of its key, as it is. -/
structure Read (committed : AttemptRows) (nowMs : ℕ) (key : AttemptKey) (row : AttemptRow) (txn : Txn) : Prop where
  removed : ∃ removed, Cleaned committed nowMs (capacityShard key) txn removed ∧
    ∀ other ∈ txn.locked, other = key ∨ other ∈ removed
  locked : key ∈ txn.locked
  own : txn.own.lookup key = some row
  committed : committed.lookup key = some row

/-- An admission that has written the row of its key. -/
structure Written (committed : AttemptRows) (nowMs maximum : ℕ) (key : AttemptKey) (txn : Txn) : Prop where
  shards : ∀ other ∈ txn.locked, capacityShard other = capacityShard key
  slotted : Slotted (capacityShard key) (txn.view committed)
  storable : ∀ other ∈ txn.locked, ∀ row, txn.own.lookup other = some row → row.storable = true
  occupancy_le : occupancy (capacityShard key) (txn.view committed) ≤
    max maximum (occupancy (capacityShard key) committed)

/-- What an admission relies on, at each phase. -/
def AdmitPhase.Seated (committed : AttemptRows) (nowMs maximum : ℕ) (key : AttemptKey) (txn : Txn) : AdmitPhase → Prop
  | .locking => txn.locked = ∅
  | .cleaning => txn.locked = ∅
  | .reading => Swept committed nowMs (capacityShard key) txn
  | .sampling none => Swept committed nowMs (capacityShard key) txn ∧ (txn.view committed).lookup key = none
  | .sampling (some row) => Read committed nowMs key row txn
  | .counting sampledMs => Swept committed nowMs (capacityShard key) txn ∧ (txn.view committed).lookup key = none ∧
      sampledMs ≤ nowMs
  | .choosing sampledMs => Swept committed nowMs (capacityShard key) txn ∧ (txn.view committed).lookup key = none ∧
      sampledMs ≤ nowMs ∧ occupancy (capacityShard key) (txn.view committed) < maximum
  | .inserting slot sampledMs => Swept committed nowMs (capacityShard key) txn ∧ (txn.view committed).lookup key = none ∧
      sampledMs ≤ nowMs ∧ occupancy (capacityShard key) (txn.view committed) < maximum ∧ slot < maximum ∧
      slot ∉ slots (capacityShard key) (txn.view committed)
  | .updating failures lastFailureMs sampledMs => sampledMs ≤ nowMs ∧ failures ≤ u32Max ∧ lastFailureMs ≤ i64Max ∧
      ∃ row, Read committed nowMs key row txn ∧ ∀ leaseUntilMs leaseToken,
        row.lease = some (leaseUntilMs, leaseToken) → leaseUntilMs ≤ sampledMs
  | .reserved _ => Written committed nowMs maximum key txn
  | .fullShard => Swept committed nowMs (capacityShard key) txn ∧
      maximum ≤ occupancy (capacityShard key) (txn.view committed)
  | .denied denial => denial ≠ .storageCapacity
  | .failed _ => False

/-- What a cleanup has removed was quiet, and is so later. -/
theorem Cleaned.mono {removed : List AttemptKey} (h : Cleaned committed nowMs shard txn removed) (hle : nowMs ≤ nowMs') :
    Cleaned committed nowMs' shard txn removed := by
  refine ⟨h.length_le, h.locked, h.gone, fun key hkey => ?_⟩
  obtain ⟨hshard, row, hrow, hquiet⟩ := h.quiet key hkey
  exact ⟨hshard, row, hrow, hquiet.trans hle⟩

theorem Swept.mono (h : Swept committed nowMs shard txn) (hle : nowMs ≤ nowMs') : Swept committed nowMs' shard txn := by
  obtain ⟨removed, hcleaned, hlocked⟩ := h
  exact ⟨removed, hcleaned.mono hle, hlocked⟩

theorem Read.mono {row : AttemptRow} (h : Read committed nowMs key row txn) (hle : nowMs ≤ nowMs') :
    Read committed nowMs' key row txn := by
  obtain ⟨⟨removed, hcleaned, hlocked⟩, hkey, hown, hcommitted⟩ := h
  exact ⟨⟨removed, hcleaned.mono hle, hlocked⟩, hkey, hown, hcommitted⟩

/-- Time passes. -/
theorem AdmitPhase.Seated.mono {phase : AdmitPhase} (h : phase.Seated committed nowMs maximum key txn)
    (hle : nowMs ≤ nowMs') : phase.Seated committed nowMs' maximum key txn := by
  cases phase with
  | locking => exact h
  | cleaning => exact h
  | reading => exact Swept.mono h hle
  | sampling found =>
    cases found with
    | none => exact ⟨h.1.mono hle, h.2⟩
    | some row => exact Read.mono h hle
  | counting sampledMs => exact ⟨h.1.mono hle, h.2.1, h.2.2.trans hle⟩
  | choosing sampledMs => exact ⟨h.1.mono hle, h.2.1, h.2.2.1.trans hle, h.2.2.2⟩
  | inserting slot sampledMs => exact ⟨h.1.mono hle, h.2.1, h.2.2.1.trans hle, h.2.2.2⟩
  | updating failures lastFailureMs sampledMs =>
    obtain ⟨hsampled, hfailures, hlast, row, hread, hlease⟩ := h
    exact ⟨hsampled.trans hle, hfailures, hlast, row, hread.mono hle, hlease⟩
  | reserved token => exact ⟨h.shards, h.slotted, h.storable, h.occupancy_le⟩
  | fullShard => exact ⟨h.1.mono hle, h.2⟩
  | denied denial => exact h
  | failed error => exact h

/-- What another transaction may commit: it leaves the locked rows, and the slots of the shard. -/
structure Spared (shard : CapacityShard) (committed committed' : AttemptRows) (txn : Txn) : Prop where
  rows : ∀ key ∈ txn.locked, committed'.lookup key = committed.lookup key
  slots : ∀ key, capacityShard key = shard → slotOf committed' key = slotOf committed key

/-- A commit that spares the shard changes no slot that the transaction sees. -/
theorem Spared.slotOf_view (h : Spared shard committed committed' txn) {key : AttemptKey} (hkey : capacityShard key = shard) :
    slotOf (txn.view committed') key = slotOf (txn.view committed) key := by
  have hslot := h.slots key hkey
  unfold slotOf at hslot ⊢
  rw [Txn.view_lookup, Txn.view_lookup]
  split
  · rfl
  · exact hslot

/-- It brings no row for a key of the shard. -/
theorem Spared.absent (h : Spared (capacityShard key) committed committed' txn)
    (hnone : (txn.view committed).lookup key = none) : (txn.view committed').lookup key = none := by
  rw [← slotOf_eq_none, h.slotOf_view rfl]
  exact slotOf_eq_none.2 hnone

/-- It takes nothing from what was cleaned. -/
theorem Spared.cleaned {removed : List AttemptKey} (h : Spared shard committed committed' txn)
    (hcleaned : Cleaned committed nowMs shard txn removed) : Cleaned committed' nowMs shard txn removed := by
  refine ⟨hcleaned.length_le, hcleaned.locked, hcleaned.gone, fun key hkey => ?_⟩
  obtain ⟨hshard, row, hrow, hquiet⟩ := hcleaned.quiet key hkey
  exact ⟨hshard, row, (h.rows key (hcleaned.locked key hkey)).trans hrow, hquiet⟩

theorem Spared.swept (h : Spared shard committed committed' txn) (hswept : Swept committed nowMs shard txn) :
    Swept committed' nowMs shard txn := by
  obtain ⟨removed, hcleaned, hlocked⟩ := hswept
  exact ⟨removed, h.cleaned hcleaned, hlocked⟩

theorem Spared.read {row : AttemptRow} (h : Spared (capacityShard key) committed committed' txn)
    (hread : Read committed nowMs key row txn) : Read committed' nowMs key row txn := by
  obtain ⟨⟨removed, hcleaned, hlocked⟩, hkey, hown, hcommitted⟩ := hread
  exact ⟨⟨removed, h.cleaned hcleaned, hlocked⟩, hkey, hown, (h.rows key hkey).trans hcommitted⟩

/-- **No commit of another transaction takes it away.** -/
theorem AdmitPhase.Seated.spared {phase : AdmitPhase} (hseated : phase.Seated committed nowMs maximum key txn)
    (h : Spared (capacityShard key) committed committed' txn) : phase.Seated committed' nowMs maximum key txn := by
  have hoccupancy : occupancy (capacityShard key) (txn.view committed') =
      occupancy (capacityShard key) (txn.view committed) := occupancy_congr fun other hother => h.slotOf_view hother
  have hslots : slots (capacityShard key) (txn.view committed') = slots (capacityShard key) (txn.view committed) :=
    slots_congr fun other hother => h.slotOf_view hother
  cases phase with
  | locking => exact hseated
  | cleaning => exact hseated
  | reading => exact h.swept hseated
  | sampling found =>
    cases found with
    | none => exact ⟨h.swept hseated.1, h.absent hseated.2⟩
    | some row => exact h.read hseated
  -- no other transaction inserts into the locked shard
  | counting sampledMs => exact ⟨h.swept hseated.1, h.absent hseated.2.1, hseated.2.2⟩
  | choosing sampledMs =>
    obtain ⟨hswept, hnone, hsampled, hroom⟩ := hseated
    exact ⟨h.swept hswept, h.absent hnone, hsampled, hoccupancy ▸ hroom⟩
  | inserting slot sampledMs =>
    obtain ⟨hswept, hnone, hsampled, hroom, hslot, hfree⟩ := hseated
    exact ⟨h.swept hswept, h.absent hnone, hsampled, hoccupancy ▸ hroom, hslot, hslots ▸ hfree⟩
  | updating failures lastFailureMs sampledMs =>
    obtain ⟨hsampled, hfailures, hlast, row, hread, hlease⟩ := hseated
    exact ⟨hsampled, hfailures, hlast, row, h.read hread, hlease⟩
  | reserved token =>
    obtain ⟨hshards, hslotted, hstorable, hle⟩ := hseated
    refine ⟨hshards, hslotted.congr fun other hother => h.slotOf_view hother, hstorable, ?_⟩
    rw [hoccupancy, occupancy_congr h.slots]
    exact hle
  | fullShard =>
    obtain ⟨hswept, hfull⟩ := hseated
    exact ⟨h.swept hswept, hoccupancy ▸ hfull⟩
  | denied denial => exact hseated
  | failed error => exact hseated

/-- A cleanup only takes rows away. -/
theorem Swept.slotOf_view (h : Swept committed nowMs shard txn) (key : AttemptKey) :
    slotOf (txn.view committed) key = none ∨ slotOf (txn.view committed) key = slotOf committed key := by
  obtain ⟨removed, hcleaned, hlocked⟩ := h
  by_cases hkey : key ∈ txn.locked
  · left
    rw [slotOf_eq_none, Txn.view_lookup, if_pos hkey]
    exact hcleaned.gone key (hlocked key hkey)
  · right
    unfold slotOf
    rw [Txn.view_lookup, if_neg hkey]

end Seated

/-! ## Statements -/

section Statements

variable [Sha2] {w w' : World} {i j nowMs maximum : ℕ} {session other : Session} {txn txn' : Txn}

/-- **A statement of an admission keeps what it relies on.** -/
theorem Advances.seated {subject : AttemptSubject} {phase phase' : AdmitPhase} {issued : Table LeaseToken Reservation}
    (h : Advances w i nowMs maximum subject txn phase txn' phase' issued)
    (hseated : phase.Seated w.committed nowMs maximum subject.key txn) (hmaximum : maximum ≤ hardMaxRowsPerShard)
    (hmax : nowMs ≤ maxTimestampMs) (hslotted : Slotted (capacityShard subject.key) w.committed)
    (hstorable : Storable w.committed) : phase'.Seated w.committed nowMs maximum subject.key txn' := by
  cases h with
  | locked hfree => exact hseated
  | @cleaned scan rows hrows =>
    -- nothing was locked before the cleanup, so it is all that is removed
    have hempty : txn.locked = ∅ := hseated
    refine ⟨swept w i nowMs scan subject txn, ⟨List.length_take_le _ _, ?_, ?_, ?_⟩, ?_⟩
    · exact fun key hkey => Txn.mem_write.2 (Or.inr (List.mem_toFinset.2 hkey))
    · intro key hkey
      change rows.lookup key = none
      rw [hrows, if_pos hkey]
    · intro key hkey
      obtain ⟨row, hrow, hshard, hquiet, -⟩ := mem_cleanupSelect hkey
      rw [Txn.view_lookup, hempty, if_neg (Finset.notMem_empty _)] at hrow
      exact ⟨hshard, row, hrow, hquiet⟩
    · intro key hkey
      rcases Txn.mem_write.1 hkey with hmem | hmem
      · rw [hempty] at hmem
        cases hmem
      · exact List.mem_toFinset.1 hmem
  | absent hnone => exact ⟨hseated, hnone⟩
  | @found row hrow hfree =>
    obtain ⟨removed, hcleaned, hlocked⟩ := hseated
    -- a row that the cleanup has removed is not found
    have hnot : subject.key ∉ txn.locked := by
      intro hmem
      rw [Txn.view_lookup, if_pos hmem, hcleaned.gone _ (hlocked _ hmem)] at hrow
      cases hrow
    refine ⟨⟨removed, ⟨hcleaned.length_le, ?_, ?_, hcleaned.quiet⟩, ?_⟩, Finset.mem_insert_self _ _, hrow, ?_⟩
    · exact fun key hkey => Txn.mem_lock.2 (Or.inr (hcleaned.locked key hkey))
    · intro key hkey
      rw [Txn.own_lock, Txn.view_lookup, if_pos (hcleaned.locked key hkey)]
      exact hcleaned.gone key hkey
    · exact fun key hkey => (Txn.mem_lock.1 hkey).imp_right (hlocked key)
    · rw [Txn.view_lookup, if_neg hnot] at hrow
      exact hrow
  | sampled => exact ⟨hseated.1, hseated.2, le_rfl⟩
  | judged row =>
    rcases @judged_cases row subject.policy nowMs (hstorable _ _ (Read.committed hseated)) with
      ⟨denial, hdenied, hne⟩ | ⟨failures, lastFailureMs, hupdate, hfailures, hlast, hlease⟩
    · rw [hdenied]
      exact hne
    · rw [hupdate]
      exact ⟨le_rfl, hfailures, hlast, row, hseated, hlease⟩
  | full hfull => exact ⟨hseated.1, hfull⟩
  | counted hroom => exact ⟨hseated.1, hseated.2.1, hseated.2.2, Nat.not_le.1 hroom⟩
  | noSlot hslot =>
    -- there is room, so some slot is free
    obtain ⟨slot, hsome, -⟩ := freeSlot_of_room hseated.2.2.2
    rw [hslot] at hsome
    cases hsome
  | chosen hslot =>
    obtain ⟨hswept, hnone, hsampled, hroom⟩ := hseated
    obtain ⟨slot, hsome, hlt, hfree⟩ := freeSlot_of_room hroom
    rw [hslot] at hsome
    cases hsome
    exact ⟨hswept, hnone, hsampled, hroom, hlt, hfree⟩
  | @inserted slot sampledMs token hfresh hfree hinsertable =>
    obtain ⟨hswept, hnone, hsampled, hroom, hlt, hfreeSlot⟩ := hseated
    obtain ⟨removed, hcleaned, hlocked⟩ := hswept
    have hslot : slot ≤ 65535 := by
      unfold hardMaxRowsPerShard at hmaximum
      omega
    have hview : Slotted (capacityShard subject.key) (txn.view w.committed) :=
      hslotted.shrink fun key _ => Swept.slotOf_view ⟨removed, hcleaned, hlocked⟩ key
    refine ⟨?_, ?_, ?_, ?_⟩
    · intro key hkey
      rcases Txn.mem_write.1 hkey with hmem | hmem
      · exact (hcleaned.quiet key (hlocked key hmem)).1
      · rw [Finset.mem_singleton.1 hmem]
    · rw [Txn.view_insert]
      exact hview.insert hfreeSlot
    · intro key hkey row hrow
      change ((txn.view w.committed).insert _ _).lookup key = some row at hrow
      rw [Finmap.lookup_insert_if] at hrow
      split at hrow
      · cases hrow
        exact insertedRow_storable (hsampled.trans hmax) hslot
      · rename_i hne
        rcases Txn.mem_write.1 hkey with hmem | hmem
        · rw [Txn.view_lookup, if_pos hmem, hcleaned.gone key (hlocked key hmem)] at hrow
          cases hrow
        · exact absurd (Finset.mem_singleton.1 hmem) hne
    · rw [Txn.view_insert]
      exact (occupancy_insert_le _ _ _).trans (hroom.trans_le (le_max_left _ _))
  | @refused slot sampledMs token hnot =>
    -- the key is absent and the slot free: the insertion succeeds
    obtain ⟨-, hnone, hsampled, -, hlt, hfreeSlot⟩ := hseated
    have hslot : slot ≤ 65535 := by
      unfold hardMaxRowsPerShard at hmaximum
      omega
    refine hnot ?_
    unfold insertable
    rw [insertedRow_storable (hsampled.trans hmax) hslot, hnone]
    exact decide_eq_true hfreeSlot
  | @updated failures lastFailureMs sampledMs token row hrow hfresh hfree hstored =>
    obtain ⟨-, -, -, row', hread, -⟩ := hseated
    obtain ⟨removed, hcleaned, hlocked⟩ := hread.removed
    rw [Txn.view_lookup, if_pos hread.locked, hread.own] at hrow
    cases hrow
    -- an update moves no slot
    have hslots : ∀ key, slotOf ((txn.view w.committed).insert subject.key
        (updatedRow subject.policy failures lastFailureMs sampledMs token row)) key = none ∨
        slotOf ((txn.view w.committed).insert subject.key
          (updatedRow subject.policy failures lastFailureMs sampledMs token row)) key = slotOf w.committed key := by
      intro key
      rw [slotOf_insert]
      split
      · rename_i heq
        right
        rw [heq]
        exact (slotOf_eq_some.2 ⟨row, hread.committed, rfl⟩).symm
      · rename_i hne
        by_cases hmem : key ∈ txn.locked
        · left
          rw [slotOf_eq_none, Txn.view_lookup, if_pos hmem]
          exact hcleaned.gone key ((hlocked key hmem).resolve_left hne)
        · right
          unfold slotOf
          rw [Txn.view_lookup, if_neg hmem]
    refine ⟨?_, ?_, ?_, ?_⟩
    · intro key hkey
      rcases Txn.mem_write.1 hkey with hmem | hmem
      · rcases hlocked key hmem with rfl | hremoved
        · rfl
        · exact (hcleaned.quiet key hremoved).1
      · rw [Finset.mem_singleton.1 hmem]
    · rw [Txn.view_insert]
      exact hslotted.shrink fun key _ => hslots key
    · intro key hkey row hrow
      change ((txn.view w.committed).insert _ _).lookup key = some row at hrow
      rw [Finmap.lookup_insert_if] at hrow
      split at hrow
      · cases hrow
        exact hstored
      · rename_i hne
        rcases Txn.mem_write.1 hkey with hmem | hmem
        · rw [Txn.view_lookup, if_pos hmem, hcleaned.gone key ((hlocked key hmem).resolve_left hne)] at hrow
          cases hrow
        · exact absurd (Finset.mem_singleton.1 hmem) hne
    · rw [Txn.view_insert]
      refine (PgAttempts.occupancy_le fun key _ hnone => ?_).trans (le_max_right _ _)
      rcases hslots key with hgone | hsame
      · exact hgone
      · rw [hsame]
        exact hnone
  | @lost failures lastFailureMs sampledMs token hnot =>
    -- the row is locked since it was read: the update finds it
    obtain ⟨hsampled, hfailures, hlast, row, hread, -⟩ := hseated
    refine hnot row ?_ (updatedRow_storable (hstorable _ _ hread.committed) (hsampled.trans hmax) hfailures hlast)
    rw [Txn.view_lookup, if_pos hread.locked]
    exact hread.own

omit [Sha2] in
/-- A host transaction rewrites rows where they are. -/
structure Housed (committed : AttemptRows) (saved : Txn) : Prop where
  slots : ∀ key ∈ saved.locked, slotOf saved.own key = slotOf committed key
  storable : ∀ key ∈ saved.locked, ∀ row, saved.own.lookup key = some row → row.storable = true

section Housed

variable {committed : AttemptRows} {key : AttemptKey} {row : AttemptRow}

omit [Sha2] in
/-- A host transaction moves no slot. -/
theorem Housed.slotOf_view (h : Housed committed txn) (key : AttemptKey) :
    slotOf (txn.view committed) key = slotOf committed key := by
  by_cases hkey : key ∈ txn.locked
  · have hslot := h.slots key hkey
    unfold slotOf at hslot ⊢
    rw [Txn.view_lookup, if_pos hkey]
    exact hslot
  · unfold slotOf
    rw [Txn.view_lookup, if_neg hkey]

omit [Sha2] in
/-- Its rows fit their columns. -/
theorem Housed.storable_view (h : Housed committed txn) (hstorable : Storable committed) :
    Storable (txn.view committed) := by
  intro key row hrow
  rw [Txn.view_lookup] at hrow
  split at hrow
  · rename_i hkey
    exact h.storable key hkey row hrow
  · exact hstorable key row hrow

omit [Sha2] in
/-- A lock changes nothing. -/
theorem Housed.lock (h : Housed committed txn) (hstorable : Storable committed) (key : AttemptKey) :
    Housed committed (txn.lock key committed) :=
  ⟨fun other _ => h.slotOf_view other, fun other _ => h.storable_view hstorable other⟩

omit [Sha2] in
/-- A write to a row that is there keeps its slot. -/
theorem Housed.write (h : Housed committed txn) (row' : AttemptRow) (hstorable : Storable committed)
    (hrow : (txn.view committed).lookup key = some row) (hslot : row'.capacitySlot = row.capacitySlot)
    (hstored : row'.storable = true) : Housed committed (txn.write {key} ((txn.view committed).insert key row')) := by
  refine ⟨fun other _ => ?_, fun other _ found hfound => ?_⟩
  · change slotOf ((txn.view committed).insert key row') other = _
    rw [slotOf_insert]
    split
    · rename_i heq
      rw [heq, ← h.slotOf_view key, hslot]
      exact (slotOf_eq_some.2 ⟨row, hrow, rfl⟩).symm
    · exact h.slotOf_view other
  · change ((txn.view committed).insert key row').lookup other = some found at hfound
    rw [Finmap.lookup_insert_if] at hfound
    split at hfound
    · cases hfound
      exact hstored
    · exact h.storable_view hstorable other found hfound

/-- The statements of a host transaction leave every row in its slot. -/
theorem Serves.housed {outcome : Outcome} (hserves : Serves w i nowMs txn outcome) (h : Housed w.committed txn)
    (hstorable : Storable w.committed) : Housed w.committed outcome.txn := by
  cases hserves with
  | @claimed presented token receipt row leaseUntilMs hticket hrow hfree hfresh hlease hlive =>
    have hstored : ({ row with lease := some (leaseUntilMs, token) } : AttemptRow).storable = true := by
      obtain ⟨hslot, hfailures, hlast, hretry, hquiet, hquiet', hexpiry⟩ :=
        storable_iff.1 (h.storable_view hstorable _ _ hrow)
      unfold AttemptRow.expiryMs at hexpiry
      rw [hlease] at hexpiry
      exact storable_iff.2 ⟨hslot, hfailures, hlast, hretry, hquiet, hquiet', hexpiry⟩
    have hwritten := h.write { row with lease := some (leaseUntilMs, token) } hstorable hrow rfl hstored
    exact ⟨hwritten.slots, hwritten.storable⟩
  | missed hshown hticket hnone => exact h
  | stale hshown hticket hrow hfree => exact h.lock hstorable _
  | @completed presented ticket outcome row completed columns hticket hrow hfree hcompletes =>
    obtain ⟨-, hcompleted, hstored⟩ := completeRow_ok hcompletes
    have hwritten := h.write completed hstorable hrow (by rw [hcompleted]; rfl) hstored
    exact ⟨hwritten.slots, hwritten.storable⟩

end Housed

/-! ## Along a run -/

/-- What every interleaving keeps of the slots. -/
structure Allotted (w : World) : Prop where
  locked : Locked w
  clock : w.nowMs ≤ maxTimestampMs
  storable : Storable w.committed
  slotted : ∀ shard, Slotted shard w.committed
  hosts : ∀ i session savepoints, w.sessions.lookup i = some session → session.program = .host savepoints →
    ∀ saved ∈ session.states, Housed w.committed saved
  admissions : ∀ i session maximum subject phase, w.sessions.lookup i = some session →
    session.program = .admission maximum subject phase → maximum ≤ hardMaxRowsPerShard ∧
      phase.Seated w.committed w.nowMs maximum subject.key session.txn

/-- A statement keeps the slots. -/
theorem Allotted.ran (hw : Allotted w) {shown : Shown} (hsession : w.sessions.lookup i = some session)
    (hnow : w.nowMs ≤ nowMs) (hmax : nowMs ≤ maxTimestampMs) (h : Executes w i nowMs session shown w')
    (hlocked : Locked w') : Allotted w' := by
  -- it is enough to look at the session that ran
  have hkept : ∀ {program outcome}, w' = w.ran i nowMs program outcome →
      (∀ savepoints, program = .host savepoints →
        ∀ saved ∈ (⟨outcome.txn, program⟩ : Session).states, Housed w.committed saved) →
      (∀ maximum subject phase, program = .admission maximum subject phase → maximum ≤ hardMaxRowsPerShard ∧
        phase.Seated w.committed nowMs maximum subject.key outcome.txn) → Allotted w' := by
    rintro program outcome rfl hhost hadmission
    refine ⟨hlocked, hmax, hw.storable, hw.slotted, ?_, ?_⟩
    · intro j other savepoints hother hprogram
      rcases lookup_insert_cases hother with ⟨rfl, rfl⟩ | ⟨hj, hother⟩
      · exact hhost savepoints hprogram
      · exact hw.hosts j other savepoints hother hprogram
    · intro j other maximum subject phase hother hprogram
      rcases lookup_insert_cases hother with ⟨rfl, rfl⟩ | ⟨hj, hother⟩
      · exact hadmission maximum subject phase hprogram
      · obtain ⟨hmaximum, hseated⟩ := hw.admissions j other maximum subject phase hother hprogram
        exact ⟨hmaximum, hseated.mono hnow⟩
  cases h with
  | @advanced maximum subject phase phase' txn' issued hprogram hadvances =>
    obtain ⟨hmaximum, hseated⟩ := hw.admissions i session maximum subject phase hsession hprogram
    refine hkept rfl nofun ?_
    intro maximum' subject' phase'' hsame
    cases hsame
    exact ⟨hmaximum, hadvances.seated (hseated.mono hnow) hmaximum hmax (hw.slotted _) hw.storable⟩
  | @served savepoints outcome hprogram hserves =>
    refine hkept rfl ?_ nofun
    intro savepoints' hsame saved hsaved
    have hhost := hw.hosts i session savepoints hsession hprogram
    rw [Session.states_host hprogram] at hhost
    rcases List.mem_cons.1 hsaved with rfl | hmem
    · exact hserves.housed (hhost _ List.mem_cons_self) hw.storable
    · exact hhost saved (List.mem_cons_of_mem _ hmem)
  | @saved savepoints hprogram =>
    refine hkept rfl ?_ nofun
    intro savepoints' hsame state hstate
    have hhost := hw.hosts i session savepoints hsession hprogram
    rw [Session.states_host hprogram] at hhost
    rcases List.mem_cons.1 hstate with rfl | hmem
    · exact hhost _ List.mem_cons_self
    · exact hhost state hmem
  | @restored savepoints depth saved hprogram hsaved =>
    refine hkept rfl ?_ nofun
    intro savepoints' hsame state hstate
    have hhost := hw.hosts i session savepoints hsession hprogram
    rw [Session.states_host hprogram] at hhost
    rcases List.mem_cons.1 hstate with rfl | hmem
    · exact hhost _ (List.mem_cons_of_mem _ (List.mem_of_getElem? hsaved))
    · exact hhost state (List.mem_cons_of_mem _ (List.mem_of_mem_drop hmem))
  | @released savepoints depth hprogram =>
    refine hkept rfl ?_ nofun
    intro savepoints' hsame state hstate
    have hhost := hw.hosts i session savepoints hsession hprogram
    rw [Session.states_host hprogram] at hhost
    rcases List.mem_cons.1 hstate with rfl | hmem
    · exact hhost _ List.mem_cons_self
    · exact hhost state (List.mem_cons_of_mem _ (List.mem_of_mem_drop hmem))

/-- What a transaction may commit: it changes the slots of no shard but its own. -/
structure Commits (w : World) (session : Session) : Prop where
  storable : Storable (session.txn.view w.committed)
  slotted : ∀ shard, Slotted shard (session.txn.view w.committed)
  slots : ∀ key, session.shard = some (capacityShard key) ∨
    slotOf (session.txn.view w.committed) key = slotOf w.committed key

/-- A commit keeps the slots. -/
theorem Allotted.committed (hw : Allotted w) (hsession : w.sessions.lookup i = some session) (hcommits : Commits w session)
    (hlocked : Locked w') (hcommitted : w'.committed = session.txn.view w.committed)
    (hsessions : w'.sessions = w.sessions.erase i) (hnow : w'.nowMs = w.nowMs) : Allotted w' := by
  have hrows : ∀ {j other}, j ≠ i → w.sessions.lookup j = some other → ∀ key ∈ other.txn.locked,
      w'.committed.lookup key = w.committed.lookup key := by
    intro j other hne hother key hkey
    rw [hcommitted]
    exact hw.locked.undisturbed hne hother hsession hkey
  refine ⟨hlocked, hnow ▸ hw.clock, hcommitted ▸ hcommits.storable, hcommitted ▸ hcommits.slotted, ?_, ?_⟩
  · intro j other savepoints hother hprogram saved hsaved
    rw [hsessions] at hother
    obtain ⟨hne, hother⟩ := lookup_erase_cases hother
    have hhoused := hw.hosts j other savepoints hother hprogram saved hsaved
    refine ⟨fun key hkey => ?_, hhoused.storable⟩
    rw [hhoused.slots key hkey]
    unfold slotOf
    rw [hrows hne hother key (subset_of_states (hw.locked.nested j other hother) hsaved hkey)]
  · intro j other maximum subject phase hother hprogram
    rw [hsessions] at hother
    obtain ⟨hne, hother⟩ := lookup_erase_cases hother
    obtain ⟨hmaximum, hseated⟩ := hw.admissions j other maximum subject phase hother hprogram
    refine ⟨hmaximum, ?_⟩
    rw [hnow]
    by_cases hlocking : phase = .locking
    · subst hlocking
      exact hseated
    · refine hseated.spared ⟨hrows hne hother, fun key hkey => ?_⟩
      rw [hcommitted]
      refine (hcommits.slots key).resolve_left fun hshard => ?_
      -- the shard is locked
      have hmine : other.shard = some (capacityShard key) := by
        unfold Session.shard
        rw [hprogram, hkey]
        cases phase with
        | locking => exact absurd rfl hlocking
        | _ => rfl
      exact hw.locked.shards j i other session _ hne hother hsession hmine hshard

/-- **A move keeps the slots.** -/
theorem Allotted.acts {move : Move} {shown : Shown} (hw : Allotted w) (h : Acts w move shown w') : Allotted w' := by
  have hlocked := hw.locked.acts h
  cases h with
  | @began i what hnew =>
    refine ⟨hlocked, hw.clock, hw.storable, hw.slotted, ?_, ?_⟩
    · intro j other savepoints hother hprogram
      rcases lookup_insert_cases hother with ⟨rfl, rfl⟩ | ⟨hj, hother⟩
      · rw [Session.states_host hprogram]
        intro saved hsaved
        cases what with
        | admission config subject => cases hprogram
        | host =>
          cases hprogram
          rw [List.mem_singleton.1 hsaved]
          exact ⟨nofun, nofun⟩
      · exact hw.hosts j other savepoints hother hprogram
    · intro j other maximum subject phase hother hprogram
      rcases lookup_insert_cases hother with ⟨rfl, rfl⟩ | ⟨hj, hother⟩
      · cases what with
        | admission config subject =>
          cases hprogram
          exact ⟨config.rows_le, rfl⟩
        | host => cases hprogram
      · exact hw.admissions j other maximum subject phase hother hprogram
  | ran hsession hnow hmax hexecutes => exact hw.ran hsession hnow hmax hexecutes hlocked
  | @reserved i maximum session subject token hsession hprogram =>
    obtain ⟨hmaximum, hseated⟩ := hw.admissions i session _ _ _ hsession hprogram
    have hwritten : Written w.committed w.nowMs maximum subject.key session.txn := hseated
    refine hw.committed hsession ⟨?_, ?_, ?_⟩ hlocked rfl rfl rfl
    · intro key row hrow
      rw [Txn.view_lookup] at hrow
      split at hrow
      · rename_i hkey
        exact hwritten.storable key hkey row hrow
      · exact hw.storable key row hrow
    · -- other shards are as before
      intro shard
      by_cases hshard : shard = capacityShard subject.key
      · rw [hshard]
        exact hwritten.slotted
      · refine (hw.slotted shard).congr fun key hkey => ?_
        unfold slotOf
        rw [Txn.view_lookup, if_neg fun hmem => hshard (hkey.symm.trans (hwritten.shards key hmem))]
    · intro key
      unfold Session.shard
      rw [hprogram]
      by_cases hshard : capacityShard subject.key = capacityShard key
      · exact Or.inl (congrArg some hshard)
      · right
        unfold slotOf
        rw [Txn.view_lookup, if_neg fun hmem => hshard (hwritten.shards key hmem).symm]
  | @full i maximum session subject hsession hprogram =>
    obtain ⟨hmaximum, hseated⟩ := hw.admissions i session _ _ _ hsession hprogram
    obtain ⟨hswept, -⟩ : Swept w.committed w.nowMs (capacityShard subject.key) session.txn ∧ _ := hseated
    refine hw.committed hsession ⟨?_, ?_, ?_⟩ hlocked rfl rfl rfl
    · obtain ⟨removed, hcleaned, hall⟩ := hswept
      intro key row hrow
      rw [Txn.view_lookup] at hrow
      split at hrow
      · rename_i hkey
        rw [hcleaned.gone key (hall key hkey)] at hrow
        cases hrow
      · exact hw.storable key row hrow
    · -- a committed denial only removes rows
      exact fun shard => (hw.slotted shard).shrink fun key _ => hswept.slotOf_view key
    · obtain ⟨removed, hcleaned, hall⟩ := hswept
      intro key
      unfold Session.shard
      rw [hprogram]
      by_cases hshard : capacityShard subject.key = capacityShard key
      · exact Or.inl (congrArg some hshard)
      · right
        unfold slotOf
        rw [Txn.view_lookup, if_neg fun hmem => hshard (hcleaned.quiet key (hall key hmem)).1.symm]
  | @hosted i session savepoints hsession hprogram =>
    have hhoused := hw.hosts i session savepoints hsession hprogram _ session.txn_mem_states
    refine hw.committed hsession ⟨hhoused.storable_view hw.storable, fun shard => ?_, fun key => Or.inr ?_⟩ hlocked rfl rfl rfl
    · exact (hw.slotted shard).congr fun key _ => hhoused.slotOf_view key
    · exact hhoused.slotOf_view key
  | rolledBack hsession hshown =>
    refine ⟨hlocked, hw.clock, hw.storable, hw.slotted, ?_, ?_⟩
    · exact fun j other savepoints hother => hw.hosts j other savepoints (lookup_erase_cases hother).2
    · exact fun j other maximum subject phase hother =>
        hw.admissions j other maximum subject phase (lookup_erase_cases hother).2

theorem allotted_start : Allotted World.start := by
  have hnone : ∀ {i : ℕ} {session : Session}, World.start.sessions.lookup i ≠ some session := by
    intro i session hsession
    rw [show World.start.sessions = ∅ from rfl, Finmap.lookup_empty] at hsession
    cases hsession
  have hempty : ∀ key, World.start.committed.lookup key = none := fun _ => Finmap.lookup_empty _
  refine ⟨locked_start, Nat.zero_le _, ?_, ?_, fun _ _ _ hsession => absurd hsession hnone,
    fun _ _ _ _ _ hsession => absurd hsession hnone⟩
  · intro key row hrow
    rw [hempty] at hrow
    cases hrow
  · intro shard key key' slot _ _ hslot
    rw [slotOf_eq_none.2 (hempty key)] at hslot
    cases hslot

/-- A capacity denial has left as many rows as its maximum, besides those that its cleanup has removed; the removals are
kept if its transaction commits, and undone if it does not. -/
def FullDenial (w : World) (move : Move) (w' : World) : Prop :=
  ∃ i session maximum subject, ∃ removed : List AttemptKey, w.sessions.lookup i = some session ∧
    session.program = .admission maximum subject .fullShard ∧ removed.length ≤ 16 ∧
    (∀ key ∈ removed, capacityShard key = capacityShard subject.key ∧
      ∃ row, w.committed.lookup key = some row ∧ row.expiryMs ≤ w.nowMs) ∧
    (∀ key, (session.txn.view w.committed).lookup key = if key ∈ removed then none else w.committed.lookup key) ∧
    maximum ≤ occupancy (capacityShard subject.key) (session.txn.view w.committed) ∧
    (move = .commit i ∧ w'.committed = session.txn.view w.committed ∨
      move = .rollback i ∧ w'.committed = w.committed)

omit [Sha2] in
/-- A cleanup that is committed removes its rows. -/
theorem Cleaned.view_lookup {committed : AttemptRows} {shard : CapacityShard} {removed : List AttemptKey}
    (h : Cleaned committed nowMs shard txn removed) (hall : ∀ key ∈ txn.locked, key ∈ removed) (key : AttemptKey) :
    (txn.view committed).lookup key = if key ∈ removed then none else committed.lookup key := by
  rw [Txn.view_lookup]
  by_cases hkey : key ∈ removed
  · rw [if_pos (h.locked key hkey), if_pos hkey]
    exact h.gone key hkey
  · rw [if_neg fun hmem => hkey (hall key hmem), if_neg hkey]

/-- What the commit of an admission leaves in each shard. -/
theorem Allotted.bounded (hw : Allotted w) {subject : AttemptSubject} {phase : AdmitPhase} {shown : Shown}
    (hsession : w.sessions.lookup i = some session) (hprogram : session.program = .admission maximum subject phase)
    (h : Acts w (.commit i) shown w') (shard : CapacityShard) :
    occupancy shard w'.committed ≤ max maximum (occupancy shard w.committed) := by
  obtain ⟨-, hseated⟩ := hw.admissions i session _ _ _ hsession hprogram
  cases h with
  | reserved hsession' hprogram' =>
    rw [hsession] at hsession'
    cases hsession'
    rw [hprogram] at hprogram'
    cases hprogram'
    have hwritten : Written w.committed w.nowMs maximum subject.key session.txn := hseated
    change occupancy shard (session.txn.view w.committed) ≤ _
    by_cases hshard : shard = capacityShard subject.key
    · rw [hshard]
      exact hwritten.occupancy_le
    · refine (le_of_eq (occupancy_congr fun key hkey => ?_)).trans (le_max_right _ _)
      unfold slotOf
      rw [Txn.view_lookup, if_neg fun hmem => hshard (hkey.symm.trans (hwritten.shards key hmem))]
  | full hsession' hprogram' =>
    rw [hsession] at hsession'
    cases hsession'
    rw [hprogram] at hprogram'
    cases hprogram'
    -- a committed denial only removes rows
    obtain ⟨hswept, -⟩ : Swept w.committed w.nowMs (capacityShard subject.key) session.txn ∧ _ := hseated
    refine (occupancy_le fun key _ hnone => ?_).trans (le_max_right _ _)
    rcases hswept.slotOf_view key with hgone | hsame
    · exact hgone
    · exact hsame.trans hnone
  | hosted hsession' hprogram' =>
    rw [hsession] at hsession'
    cases hsession'
    rw [hprogram] at hprogram'
    cases hprogram'

/-- An admission that has found its shard full. -/
theorem Allotted.fullDenial (hw : Allotted w) {subject : AttemptSubject} (hsession : w.sessions.lookup i = some session)
    (hprogram : session.program = .admission maximum subject .fullShard) {move : Move}
    (hends : move = .commit i ∧ w'.committed = session.txn.view w.committed ∨
      move = .rollback i ∧ w'.committed = w.committed) : FullDenial w move w' := by
  obtain ⟨-, hseated⟩ := hw.admissions i session _ _ _ hsession hprogram
  obtain ⟨⟨removed, hcleaned, hall⟩, hfull⟩ : Swept w.committed w.nowMs (capacityShard subject.key) session.txn ∧ _ :=
    hseated
  exact ⟨i, session, maximum, subject, removed, hsession, hprogram, hcleaned.length_le, hcleaned.quiet,
    hcleaned.view_lookup hall, hfull, hends⟩

/-- What a capacity denial commits. -/
theorem Allotted.full (hw : Allotted w) {move : Move} (h : Acts w move (.denied .storageCapacity) w') :
    FullDenial w move w' := by
  generalize hshown : Shown.denied .storageCapacity = shown at h
  cases h with
  | began what hnew => cases hshown
  | ran hsession hnow hmax hexecutes =>
    cases hexecutes with
    | advanced hprogram hadvances => cases hshown
    | served hprogram hserves =>
      cases hserves with
      | claimed hticket hrow hfree hfresh hlease hlive => cases hshown
      | missed hidle hticket hnone =>
        rcases hidle with rfl | ⟨result, rfl, -⟩
        · cases hshown
        · cases hshown
      | stale hidle hticket hrow hfree =>
        rcases hidle with rfl | ⟨result, rfl, -⟩
        · cases hshown
        · cases hshown
      | completed hticket hrow hfree hcompletes => cases hshown
    | saved hprogram => cases hshown
    | restored hprogram hsaved => cases hshown
    | released depth hprogram => cases hshown
  | reserved hsession hprogram => cases hshown
  | full hsession hprogram => exact hw.fullDenial hsession hprogram (Or.inl ⟨rfl, rfl⟩)
  | hosted hsession hprogram => cases hshown
  | rolledBack hsession hreported =>
    rcases hreported with rfl | ⟨maximum, subject, denial, hprogram, rfl⟩ | ⟨maximum, subject, hprogram, -⟩
    · cases hshown
    · cases hshown
      obtain ⟨-, hseated⟩ := hw.admissions _ _ _ _ _ hsession hprogram
      exact absurd rfl hseated
    · exact hw.fullDenial hsession hprogram (Or.inr ⟨rfl, rfl⟩)

end Statements

/-! ## A denial whose commit fails -/

end PgAttempts

end Runlimit
