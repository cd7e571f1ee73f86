import Mathlib

/-!
# Anchored windows

Charges are pairs of a time and a cost, in order. They are *anchored* in windows of a fixed
length if each window opens at its first charge, after every earlier window has closed, and
holds exactly the charges made while it is open. Such a history grows by opening a window
(`Anchored.opened`) or by a charge to the last one (`Anchored.charged`), and an interval of the
same length meets at most two of its windows (`Anchored.cost_between_le`).
-/

/-- A window: when it opened, and what was charged in it. -/
structure Window where
  start : ℕ
  charges : List (ℕ × ℕ)

namespace Window

/-- The total cost of some charges. -/
def cost (charges : List (ℕ × ℕ)) : ℕ := (charges.map Prod.snd).sum

/-- The charges made in the half-open interval of this length. -/
def between (start length : ℕ) (charges : List (ℕ × ℕ)) : List (ℕ × ℕ) :=
  charges.filter fun charge => decide (start ≤ charge.1 ∧ charge.1 < start + length)

/-- The history `charges` partitions, in order, into `windows` of the given length. -/
structure Anchored (length : ℕ) (windows : List Window) (charges : List (ℕ × ℕ)) : Prop where
  partition : windows.flatMap Window.charges = charges
  /-- A window starts at the time of its first charge. -/
  anchor : ∀ w ∈ windows, ∃ charge ∈ w.charges.head?, charge.1 = w.start
  /-- A window holds exactly the charges made while it is open. -/
  contents : ∀ w ∈ windows, between w.start length charges = w.charges
  /-- A window opens when no earlier one is open. -/
  disjoint : windows.Pairwise fun v w => v.start + length ≤ w.start

variable {length : ℕ} {windows : List Window} {charges : List (ℕ × ℕ)}

/-- Costs add up. -/
theorem cost_append (cs ds : List (ℕ × ℕ)) : cost (cs ++ ds) = cost cs + cost ds := by
  unfold cost
  rw [List.map_append, List.sum_append]

/-- Some of the charges cost no more than all. -/
theorem cost_filter_le (p : ℕ × ℕ → Bool) (cs : List (ℕ × ℕ)) : cost (cs.filter p) ≤ cost cs :=
  (List.filter_sublist.map _).sum_le_sum fun _ _ => Nat.zero_le _

/-- A charge is in an interval if it was made in it. -/
theorem mem_between {start : ℕ} {cs : List (ℕ × ℕ)} {charge : ℕ × ℕ} :
    charge ∈ between start length cs ↔ charge ∈ cs ∧ start ≤ charge.1 ∧ charge.1 < start + length := by
  unfold between
  rw [List.mem_filter, decide_eq_true_eq]

/-- A charge made in the interval is in it, last. -/
theorem between_snoc_of_mem {start t c : ℕ} (h : start ≤ t) (h' : t < start + length) :
    between start length (charges ++ [(t, c)]) = between start length charges ++ [(t, c)] := by
  unfold between
  rw [List.filter_append, List.filter_cons_of_pos (by simpa using ⟨h, h'⟩), List.filter_nil]

/-- A charge made after the interval is not. -/
theorem between_snoc_of_le {start t c : ℕ} (h : start + length ≤ t) :
    between start length (charges ++ [(t, c)]) = between start length charges := by
  have hnot : ¬ (start ≤ t ∧ t < start + length) := by omega
  unfold between
  rw [List.filter_append, List.filter_cons_of_neg (by simpa using hnot), List.filter_nil, List.append_nil]

namespace Anchored

/-- No charges, no windows. -/
theorem nil : Anchored length [] [] where
  partition := rfl
  anchor := fun _ h => absurd h List.not_mem_nil
  contents := fun _ h => absurd h List.not_mem_nil
  disjoint := List.Pairwise.nil

/-- Every charge was made while a window was open. -/
theorem mem_window (h : Anchored length windows charges) {charge : ℕ × ℕ} (hcharge : charge ∈ charges) :
    ∃ w ∈ windows, w.start ≤ charge.1 ∧ charge.1 < w.start + length := by
  rw [← h.partition, List.mem_flatMap] at hcharge
  obtain ⟨w, hw, hcharge⟩ := hcharge
  rw [← h.contents w hw] at hcharge
  exact ⟨w, hw, (mem_between.1 hcharge).2⟩

/-- A charge made when every window is closed opens a window. -/
theorem opened (h : Anchored length windows charges) {t c : ℕ} (hlength : 0 < length)
    (hclosed : ∀ w ∈ windows, w.start + length ≤ t) :
    Anchored length (windows ++ [⟨t, [(t, c)]⟩]) (charges ++ [(t, c)]) where
  partition := by
    rw [List.flatMap_append, h.partition, List.flatMap_singleton]
  anchor := by
    intro w hw
    rcases List.mem_append.1 hw with hw | hw
    · exact h.anchor w hw
    · -- the new window starts with the charge
      rw [List.mem_singleton.1 hw]
      exact ⟨(t, c), rfl, rfl⟩
  contents := by
    intro w hw
    rcases List.mem_append.1 hw with hw | hw
    · rw [between_snoc_of_le (hclosed w hw)]
      exact h.contents w hw
    · -- every earlier charge was made before the last window closed
      have hold : between t length charges = [] := by
        rw [List.eq_nil_iff_forall_not_mem]
        intro charge hcharge
        obtain ⟨hmem, hle, -⟩ := mem_between.1 hcharge
        obtain ⟨v, hv, -, hlt⟩ := h.mem_window hmem
        have := hclosed v hv
        omega
      rw [List.mem_singleton.1 hw, between_snoc_of_mem le_rfl (by omega), hold, List.nil_append]
  disjoint := by
    rw [List.pairwise_append]
    refine ⟨h.disjoint, List.pairwise_singleton _ _, ?_⟩
    intro v hv w hw
    rw [List.mem_singleton.1 hw]
    exact hclosed v hv

/-- A charge made while the last window is open belongs to it. -/
theorem charged {w : Window} (h : Anchored length (windows ++ [w]) charges) {t c : ℕ} (hstart : w.start ≤ t)
    (hopen : t < w.start + length) :
    Anchored length (windows ++ [⟨w.start, w.charges ++ [(t, c)]⟩]) (charges ++ [(t, c)]) := by
  have hdisjoint := List.pairwise_append.1 h.disjoint
  have hearlier : ∀ v ∈ windows, v.start + length ≤ w.start :=
    fun v hv => hdisjoint.2.2 v hv w (List.mem_singleton_self w)
  have hlast : w ∈ windows ++ [w] := List.mem_append_right _ (List.mem_singleton_self w)
  refine ⟨?_, ?_, ?_, ?_⟩
  · have hpartition := h.partition
    rw [List.flatMap_append, List.flatMap_singleton] at hpartition
    rw [List.flatMap_append, List.flatMap_singleton, ← List.append_assoc, hpartition]
  · intro v hv
    rcases List.mem_append.1 hv with hv | hv
    · exact h.anchor v (List.mem_append_left _ hv)
    · obtain ⟨charge, hhead, htime⟩ := h.anchor w hlast
      rw [List.mem_singleton.1 hv]
      refine ⟨charge, ?_, htime⟩
      simp only
      rw [List.head?_append, Option.mem_def.1 hhead]
      rfl
  · intro v hv
    rcases List.mem_append.1 hv with hv | hv
    · -- an earlier window closed before the last one opened, and does not get the charge
      have := hearlier v hv
      rw [between_snoc_of_le (by omega)]
      exact h.contents v (List.mem_append_left _ hv)
    · rw [List.mem_singleton.1 hv, between_snoc_of_mem hstart hopen, h.contents w hlast]
  · rw [List.pairwise_append]
    refine ⟨hdisjoint.1, List.pairwise_singleton _ _, ?_⟩
    intro v hv u hu
    rw [List.mem_singleton.1 hu]
    exact hearlier v hv

/-! ## Intervals -/

/-- Charges of a window that is closed before an interval, or opens after it, are not in it. -/
theorem between_eq_nil (h : Anchored length windows charges) {w : Window} (hw : w ∈ windows) {start : ℕ}
    (hfar : w.start + length ≤ start ∨ start + length ≤ w.start) : between start length w.charges = [] := by
  rw [List.eq_nil_iff_forall_not_mem]
  intro charge hcharge
  obtain ⟨hmem, hle, hlt⟩ := mem_between.1 hcharge
  rw [← h.contents w hw] at hmem
  obtain ⟨-, hle', hlt'⟩ := mem_between.1 hmem
  omega

/-- At most two windows meet an interval of their length. -/
theorem length_meeting_le_two {start : ℕ}
    (h : windows.Pairwise fun v w => v.start + length ≤ w.start) :
    (windows.filter fun w => decide (start < w.start + length ∧ w.start < start + length)).length ≤ 2 := by
  set meeting := windows.filter fun w => decide (start < w.start + length ∧ w.start < start + length)
    with hmeeting
  have hpairwise : meeting.Pairwise fun v w => v.start + length ≤ w.start := h.filter _
  have hmeets : ∀ w ∈ meeting, start < w.start + length ∧ w.start < start + length := by
    intro w hw
    rw [hmeeting, List.mem_filter, decide_eq_true_eq] at hw
    exact hw.2
  match meeting, hpairwise, hmeets with
  | [], _, _ => exact Nat.zero_le _
  | [_], _, _ => exact Nat.le_succ 1
  | [_, _], _, _ => exact le_rfl
  | u :: v :: w :: rest, hpairwise, hmeets =>
    -- a third one would open two lengths after the first
    simp only [List.pairwise_cons, List.mem_cons, forall_eq_or_imp] at hpairwise hmeets
    omega

theorem cost_between_flatMap_le {start limit : ℕ} : ∀ (ws : List Window),
    (∀ w ∈ ws, cost w.charges ≤ limit) →
    (∀ w ∈ ws, w.start + length ≤ start ∨ start + length ≤ w.start → between start length w.charges = []) →
    cost (between start length (ws.flatMap Window.charges)) ≤
      (ws.filter fun w => decide (start < w.start + length ∧ w.start < start + length)).length * limit := by
  intro ws
  induction ws with
  | nil => intro _ _; exact Nat.zero_le _
  | cons w rest ih =>
    intro hlimit hfar
    rw [List.forall_mem_cons] at hlimit hfar
    have hrest := ih hlimit.2 hfar.2
    have hsplit : cost (between start length ((w :: rest).flatMap Window.charges)) =
        cost (between start length w.charges) +
          cost (between start length (rest.flatMap Window.charges)) := by
      rw [List.flatMap_cons]
      unfold between
      rw [List.filter_append, cost_append]
    rw [hsplit]
    by_cases hmeets : start < w.start + length ∧ w.start < start + length
    · have hw : cost (between start length w.charges) ≤ limit := (cost_filter_le _ _).trans hlimit.1
      rw [List.filter_cons_of_pos (by simpa using hmeets), List.length_cons, Nat.add_mul, Nat.one_mul]
      omega
    · rw [List.filter_cons_of_neg (by simpa using hmeets), hfar.1 (by omega)]
      exact (Nat.zero_add _).trans_le hrest

/-- **An interval of the length of the windows costs at most two limits.** -/
theorem cost_between_le (h : Anchored length windows charges) {limit : ℕ}
    (hlimit : ∀ w ∈ windows, cost w.charges ≤ limit) (start : ℕ) :
    cost (between start length charges) ≤ 2 * limit := by
  rw [← h.partition]
  exact (cost_between_flatMap_le windows hlimit fun w hw => h.between_eq_nil hw).trans
    (Nat.mul_le_mul_right _ (length_meeting_le_two h.disjoint))

end Anchored

end Window
