import Mathlib

/-!
# Token buckets and arrival times

A bucket gains `rate` tokens a unit of time, up to `span`, and an admission pays its weight. It
can be kept as a token count, or as the *arrival time* at which it will be full again, scaled by
the rate; an arrival time that the clock has reached can be forgotten. `level` is the arrival
time such a bucket stands for, and it is the potential of every argument about rates:

* `level_advance`, `level_forget`: time and forgetting only ever raise it to the clock;
* `tokens_advance`, `tokens_charge`: the clock and `span`, less the level, is the token count.
-/

namespace Bucket

/-- The arrival time a bucket stands for at time `now`. -/
def level (rate now : ℕ) (arrival : Option ℕ) : ℕ := max (arrival.getD 0) (now * rate)

variable {rate span now : ℕ} {arrival : Option ℕ}

theorem scaled_le_level : now * rate ≤ level rate now arrival := le_max_right _ _

theorem level_none : level rate now none = now * rate := by
  unfold level
  rw [Option.getD_none, Nat.zero_max]

/-- The arrival time may be read off at the clock when there is none. -/
theorem level_eq_getD : level rate now arrival = max (arrival.getD (now * rate)) (now * rate) := by
  cases arrival with
  | none => rw [level_none, Option.getD_none, Nat.max_self]
  | some a => rfl

/-- Time passes. -/
theorem level_advance {now' : ℕ} (h : now ≤ now') :
    level rate now' arrival = max (level rate now arrival) (now' * rate) := by
  have hscaled := Nat.mul_le_mul_right rate h
  unfold level
  omega

/-- An arrival time that was reached may be forgotten. -/
theorem level_forget (h : ∀ a ∈ arrival, a ≤ now * rate) : level rate now none = level rate now arrival := by
  cases arrival with
  | none => rfl
  | some a =>
    have ha := h a rfl
    unfold level
    simp only [Option.getD_some, Option.getD_none]
    omega

/-- An arrival time the clock has not passed is the level. -/
theorem level_some {a : ℕ} (h : now * rate ≤ a) : level rate now (some a) = a := by
  unfold level
  rw [Option.getD_some, Nat.max_eq_left h]

/-! ## Tokens -/

/-- The tokens of a bucket at a level. -/
def tokens (rate span now level : ℕ) : ℕ := span + now * rate - level

/-- What a bucket with this many tokens holds after some time. -/
def refill (rate span tokens elapsed : ℕ) : ℕ := min span (tokens + elapsed * rate)

theorem refill_le (tokens elapsed : ℕ) : refill rate span tokens elapsed ≤ span := min_le_left _ _

/-- Refilling twice is refilling once for the time of both. -/
theorem refill_refill (tokens elapsed elapsed' : ℕ) :
    refill rate span (refill rate span tokens elapsed) elapsed' =
      refill rate span tokens (elapsed + elapsed') := by
  have hadd := Nat.add_mul elapsed elapsed' rate
  unfold refill
  omega

variable {l : ℕ}

/-- A bucket at the level of the clock is full. -/
theorem tokens_scaled : tokens rate span now (now * rate) = span := by
  unfold tokens
  omega

/-- **Time refills the bucket.** -/
theorem tokens_advance {now' : ℕ} (h : now ≤ now') (hl : now * rate ≤ l) (hspan : l ≤ now * rate + span) :
    tokens rate span now' (max l (now' * rate)) =
      refill rate span (tokens rate span now l) (now' - now) := by
  have hsub : now * rate + (now' - now) * rate = now' * rate := by
    rw [← Nat.add_mul, Nat.add_sub_cancel' h]
  unfold tokens refill
  omega

/-- **An admission pays its weight.** -/
theorem tokens_charge (weight : ℕ) :
    tokens rate span now (l + weight) = tokens rate span now l - weight := by
  unfold tokens
  omega

end Bucket
