import Mathlib

/-!
# A cursor over a set that changes under it

A scan of an ordered set examines, at each turn, the next `n` elements after its cursor and moves
the cursor to the last of them; a turn that finds nothing after the cursor starts over. Elements
may come and go between the turns. `turns` bounds how many turns there still are before an element is
examined, wherever the cursor is:

* `turns_pass`: a turn that does not examine the element brings it one turn nearer;
* `turns_le_add`: elements that go do not delay it, and each that comes delays it by one turn at most;
* `turns_le`: at most the turns of a whole scan, and two for the ends.
-/

namespace Cursor

variable {K : Type} [LinearOrder K] {n : ℕ} {s : Finset K} {cursor : Option K} {key : K}

/-- The elements after the cursor; without a cursor, all of them. -/
def ahead (s : Finset K) : Option K → Finset K
  | some cursor => s.filter (cursor < ·)
  | none => s

/-- The elements one turn examines, in order. -/
def window (n : ℕ) (s : Finset K) (cursor : Option K) : List K := ((ahead s cursor).sort (· ≤ ·)).take n

/-- The cursor has not come past the element. -/
def isBefore (cursor : Option K) (key : K) : Bool := cursor.all fun c => decide (c < key)

/-- A bound on the turns up to the one that examines the element. Behind the cursor, the scan has to
come to its end and start over first. -/
def turns (n : ℕ) (s : Finset K) (cursor : Option K) (key : K) : ℕ :=
  if isBefore cursor key then ((ahead s cursor).filter (· < key)).card / n + 1
  else ((ahead s cursor).card + (n - 1)) / n + (s.filter (· < key)).card / n + 2

/-- Ahead is what the cursor has not come past. -/
theorem mem_ahead {x : K} : x ∈ ahead s cursor ↔ x ∈ s ∧ isBefore cursor x = true := by
  cases cursor with
  | none => simp [ahead, isBefore]
  | some c => simp [ahead, isBefore]

/-- Only a cursor can have come past an element. -/
theorem exists_of_not_isBefore (h : ¬ isBefore cursor key = true) : ∃ c, cursor = some c ∧ key ≤ c := by
  cases cursor with
  | none => exact absurd rfl h
  | some c => exact ⟨c, rfl, by simpa [isBefore] using h⟩

/-- Nothing is both after a cursor and before an element behind it. -/
theorem card_after_add_card_before {c : K} (hc : key ≤ c) (t : Finset K) :
    (t.filter (c < ·)).card + (t.filter (· < key)).card ≤ t.card := by
  rw [← Finset.card_union_of_disjoint]
  · exact Finset.card_le_card (Finset.union_subset (Finset.filter_subset _ _) (Finset.filter_subset _ _))
  · rw [Finset.disjoint_filter]
    intro x _ hx hx'
    exact absurd (hc.trans_lt hx) (not_lt.2 hx'.le)

/-! ## One turn -/

/-- A turn examines what is ahead. -/
theorem mem_ahead_of_mem_window {x : K} (h : x ∈ window n s cursor) : x ∈ ahead s cursor :=
  (Finset.mem_sort _).1 (List.mem_of_mem_take h)

/-- As much of it as fits one turn. -/
theorem length_window : (window n s cursor).length = min n (ahead s cursor).card := by
  unfold window
  rw [List.length_take, Finset.length_sort]

/-- Each element once. -/
theorem nodup_window : (window n s cursor).Nodup :=
  (Finset.sort_nodup _ _).sublist (List.take_sublist _ _)

/-- A turn examines the elements up to where it leaves the cursor. -/
theorem mem_window_iff {last x : K} (hlast : (window n s cursor).getLast? = some last)
    (hx : x ∈ ahead s cursor) : x ∈ window n s cursor ↔ x ≤ last := by
  -- the order puts what is examined before what is left
  have hsorted : List.Pairwise (· < ·) ((ahead s cursor).sort (· ≤ ·)) := (Finset.sortedLT_sort _).pairwise
  have hmem : x ∈ (ahead s cursor).sort (· ≤ ·) := (Finset.mem_sort _).2 hx
  rw [← List.take_append_drop n ((ahead s cursor).sort (· ≤ ·))] at hsorted hmem
  obtain ⟨front, hfront⟩ := List.getLast?_eq_some_iff.1 hlast
  unfold window at hfront ⊢
  rw [List.pairwise_append, hfront, List.pairwise_append] at hsorted
  obtain ⟨⟨-, -, hbelow⟩, -, habove⟩ := hsorted
  rw [List.mem_append] at hmem
  constructor
  · intro h
    rw [hfront, List.mem_append, List.mem_singleton] at h
    rcases h with h | rfl
    · exact (hbelow x h last (List.mem_singleton.2 rfl)).le
    · exact le_rfl
  · intro hle
    rcases hmem with h | h
    · exact h
    · have hlt := habove last (List.mem_append_right _ (List.mem_singleton.2 rfl)) x h
      exact absurd hle (not_le.2 hlt)

/-- The cursor is left on an element that was ahead. -/
theorem last_mem_ahead {last : K} (hlast : (window n s cursor).getLast? = some last) : last ∈ ahead s cursor :=
  mem_ahead_of_mem_window (List.mem_of_getLast? hlast)

/-- What was examined is no longer ahead. -/
theorem ahead_last {last : K} (hlast : (window n s cursor).getLast? = some last) :
    ahead s (some last) = ahead s cursor \ (window n s cursor).toFinset := by
  have hmem := mem_ahead.1 (last_mem_ahead hlast)
  ext x
  rw [Finset.mem_sdiff, List.mem_toFinset]
  constructor
  · intro hx
    have hlt : last < x := (Finset.mem_filter.1 hx).2
    have hahead : x ∈ ahead s cursor := by
      refine mem_ahead.2 ⟨(Finset.mem_filter.1 hx).1, ?_⟩
      cases cursor with
      | none => rfl
      | some c =>
        have hc : c < last := by simpa [isBefore] using hmem.2
        simpa [isBefore] using hc.trans hlt
    exact ⟨hahead, fun h => absurd ((mem_window_iff hlast hahead).1 h) (not_le.2 hlt)⟩
  · rintro ⟨hahead, hnot⟩
    rw [mem_window_iff hlast hahead] at hnot
    exact Finset.mem_filter.2 ⟨(mem_ahead.1 hahead).1, not_le.1 hnot⟩

/-- A turn takes a window off what is ahead. -/
theorem card_ahead_last {last : K} (hlast : (window n s cursor).getLast? = some last) :
    (ahead s (some last)).card = (ahead s cursor).card - n := by
  have hsubset : (window n s cursor).toFinset ⊆ ahead s cursor := by
    intro x hx
    exact mem_ahead_of_mem_window (List.mem_toFinset.1 hx)
  rw [ahead_last hlast, Finset.card_sdiff_of_subset hsubset, List.toFinset_card_of_nodup nodup_window, length_window]
  omega

/-- An element ahead that is not examined has a whole window before it. -/
theorem card_before_last {last : K} (hlast : (window n s cursor).getLast? = some last)
    (hkey : key ∈ ahead s cursor) (hnot : key ∉ window n s cursor) :
    ((ahead s (some last)).filter (· < key)).card + n = ((ahead s cursor).filter (· < key)).card := by
  have hlt : last < key := not_le.1 fun h => hnot ((mem_window_iff hlast hkey).2 h)
  -- the window is full: a shorter one would have taken in the element
  have hlength : (window n s cursor).length = n := by
    rw [length_window]
    refine Nat.min_eq_left (Nat.le_of_not_lt fun hcard => hnot ?_)
    unfold window
    rw [List.take_of_length_le (by rw [Finset.length_sort]; omega)]
    exact (Finset.mem_sort _).2 hkey
  have hsubset : (window n s cursor).toFinset ⊆ (ahead s cursor).filter (· < key) := by
    intro x hx
    rw [List.mem_toFinset] at hx
    have hahead := mem_ahead_of_mem_window hx
    exact Finset.mem_filter.2 ⟨hahead, ((mem_window_iff hlast hahead).1 hx).trans_lt hlt⟩
  have hsplit : (ahead s (some last)).filter (· < key) =
      (ahead s cursor).filter (· < key) \ (window n s cursor).toFinset := by
    rw [ahead_last hlast]
    ext x
    simp only [Finset.mem_filter, Finset.mem_sdiff]
    tauto
  have hle := Finset.card_le_card hsubset
  rw [List.toFinset_card_of_nodup nodup_window, hlength] at hle
  rw [hsplit, Finset.card_sdiff_of_subset hsubset, List.toFinset_card_of_nodup nodup_window, hlength]
  omega

/-- **A turn that does not examine an element brings it one turn nearer.** -/
theorem turns_pass (hn : 0 < n) (hkey : key ∈ s) (hnot : key ∉ window n s cursor) :
    turns n s (window n s cursor).getLast? key + 1 ≤ turns n s cursor key := by
  by_cases hbefore : isBefore cursor key = true
  · have hahead : key ∈ ahead s cursor := mem_ahead.2 ⟨hkey, hbefore⟩
    cases hlast : (window n s cursor).getLast? with
    | none =>
      -- the window is empty only if nothing is ahead
      have hcard := @length_window K _ n s cursor
      rw [List.getLast?_eq_none_iff.1 hlast, List.length_nil] at hcard
      have hpos : 0 < (ahead s cursor).card := Finset.card_pos.2 ⟨key, hahead⟩
      omega
    | some last =>
      have hlt : last < key := not_le.1 fun h => hnot ((mem_window_iff hlast hahead).2 h)
      have hcard := card_before_last hlast hahead hnot
      have hbefore' : isBefore (some last) key = true := by simpa [isBefore] using hlt
      unfold turns
      rw [if_pos hbefore, if_pos hbefore', ← hcard, Nat.add_div_right _ hn]
  · obtain ⟨c, rfl, hc⟩ := exists_of_not_isBefore hbefore
    unfold turns
    rw [if_neg hbefore]
    cases hlast : (window n s (some c)).getLast? with
    | none =>
      have hstart : isBefore (none : Option K) key = true := rfl
      rw [if_pos hstart]
      exact Nat.add_le_add_right (Nat.le_add_left _ _) 2
    | some last =>
      have hmem := last_mem_ahead hlast
      have hlt : c < last := (Finset.mem_filter.1 hmem).2
      have hbehind : ¬ isBefore (some last) key = true := by
        simpa [isBefore] using hc.trans hlt.le
      have hpos : 0 < (ahead s (some c)).card := Finset.card_pos.2 ⟨last, hmem⟩
      -- the rest of the round shrinks by a window, or was the last
      have hround : ((ahead s (some c)).card - n + (n - 1)) / n + 1 ≤ ((ahead s (some c)).card + (n - 1)) / n := by
        by_cases hle : n ≤ (ahead s (some c)).card
        · rw [← Nat.add_div_right _ hn]
          exact Nat.div_le_div_right (by omega)
        · rw [Nat.div_eq_of_lt (by omega)]
          exact Nat.div_pos (by omega) hn
      rw [if_neg hbehind, card_ahead_last hlast]
      omega

/-! ## Elements that come and go -/

/-- An extra element costs at most one more turn. -/
theorem add_div_le_add (a e : ℕ) (hn : 0 < n) : (a + e) / n ≤ a / n + e := by
  rw [← Nat.add_mul_div_right a e hn]
  exact Nat.div_le_div_right (Nat.add_le_add_left (Nat.le_mul_of_pos_right e hn) a)

/-- What is counted now was counted before, or has come. -/
theorem card_filter_le_add {s' t : Finset K} (h : ∀ x ∈ s', x ∈ s ∨ x ∈ t) (p : K → Prop) [DecidablePred p] :
    (s'.filter p).card ≤ (s.filter p).card + (t.filter p).card := by
  have hsubset : s' ⊆ s ∪ t := fun x hx => Finset.mem_union.2 (h x hx)
  refine (Finset.card_le_card (Finset.filter_subset_filter p hsubset)).trans ?_
  rw [Finset.filter_union]
  exact Finset.card_union_le _ _

/-- **Elements that go do not delay an element, and each that comes delays it by one turn at most.** -/
theorem turns_le_add (hn : 0 < n) {s' t : Finset K} (h : ∀ x ∈ s', x ∈ s ∨ x ∈ t) :
    turns n s' cursor key ≤ turns n s cursor key + t.card := by
  unfold turns
  by_cases hbefore : isBefore cursor key = true
  · rw [if_pos hbefore, if_pos hbefore]
    have hahead : ∀ x ∈ ahead s' cursor, x ∈ ahead s cursor ∨ x ∈ t := by
      intro x hx
      obtain ⟨hmem, hx⟩ := mem_ahead.1 hx
      rcases h x hmem with hmem | hmem
      · exact Or.inl (mem_ahead.2 ⟨hmem, hx⟩)
      · exact Or.inr hmem
    have hcard := card_filter_le_add hahead (· < key)
    have hextra := Finset.card_filter_le t (· < key)
    have hdiv := Nat.div_le_div_right (c := n) (hcard.trans (Nat.add_le_add_left hextra _))
    have hadd := add_div_le_add ((ahead s cursor).filter (· < key)).card t.card hn
    omega
  · rw [if_neg hbefore, if_neg hbefore]
    obtain ⟨c, rfl, hc⟩ := exists_of_not_isBefore hbefore
    -- what comes, comes after the cursor or before the element, not both
    have hdisjoint := card_after_add_card_before hc t
    have hafter : (ahead s' (some c)).card ≤ (ahead s (some c)).card + (t.filter (c < ·)).card :=
      card_filter_le_add h (c < ·)
    have hfront := card_filter_le_add h (· < key)
    have hdiv := Nat.div_le_div_right (c := n) (Nat.add_le_add_right hafter (n - 1))
    have hdiv' := Nat.div_le_div_right (c := n) hfront
    have hadd := add_div_le_add ((ahead s (some c)).card + (n - 1)) (t.filter (c < ·)).card hn
    have hadd' := add_div_le_add (s.filter (· < key)).card (t.filter (· < key)).card hn
    rw [Nat.add_right_comm] at hdiv
    omega

/-- Elements that go bring the others nearer. -/
theorem turns_mono (hn : 0 < n) {s' : Finset K} (h : s' ⊆ s) : turns n s' cursor key ≤ turns n s cursor key := by
  have hadd := @turns_le_add K _ n s cursor key hn s' ∅ (fun x hx => Or.inl (h hx))
  rwa [Finset.card_empty, Nat.add_zero] at hadd

theorem turns_pos : 0 < turns n s cursor key := by
  unfold turns
  split
  · exact Nat.succ_pos _
  · exact Nat.succ_pos _

/-- **A bound from the size of the set alone.** -/
theorem turns_le : turns n s cursor key ≤ (s.card + (n - 1)) / n + 2 := by
  unfold turns
  split
  · have hcard : ((ahead s cursor).filter (· < key)).card ≤ s.card := by
      refine (Finset.card_filter_le _ _).trans (Finset.card_le_card ?_)
      intro x hx
      exact (mem_ahead.1 hx).1
    have hdiv := Nat.div_le_div_right (c := n) (hcard.trans (Nat.le_add_right s.card (n - 1)))
    omega
  · rename_i hbefore
    obtain ⟨c, rfl, hc⟩ := exists_of_not_isBefore hbefore
    have hcard : (ahead s (some c)).card + (s.filter (· < key)).card ≤ s.card := card_after_add_card_before hc s
    have hadd : ((ahead s (some c)).card + (n - 1)) / n + (s.filter (· < key)).card / n ≤
        ((ahead s (some c)).card + (n - 1) + (s.filter (· < key)).card) / n := Nat.div_add_div_le_add_div
    have hdiv : ((ahead s (some c)).card + (n - 1) + (s.filter (· < key)).card) / n ≤ (s.card + (n - 1)) / n :=
      Nat.div_le_div_right (by omega)
    omega

end Cursor
