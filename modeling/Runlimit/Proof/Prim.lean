import Runlimit.Spec.Prim

/-!
# Primitives: calls that do not unwind, whole milliseconds, rounding up

The rules for peeling apart a computation that may unwind: where an `expect`, an index or a
`debug_assert!` succeeds, it is the value it checks, and a sequence of steps that ends well
is a sequence of steps that each end well.
-/

namespace Runlimit

section Except

variable {ε α β : Type}

/-- Two steps end well where each does. -/
theorem except_bind_eq_ok {x : Except ε α} {f : α → Except ε β} {b : β} :
    (x >>= f) = .ok b ↔ ∃ a, x = .ok a ∧ f a = .ok b := by
  cases x with
  | error e =>
    constructor
    · intro h; cases h
    · rintro ⟨_, h, _⟩; cases h
  | ok a =>
    constructor
    · intro h; exact ⟨a, rfl, h⟩
    · rintro ⟨_, h, h'⟩; cases h; exact h'

@[simp]
theorem except_ok_bind (a : α) (f : α → Except ε β) : ((.ok a : Except ε α) >>= f) = f a := rfl

@[simp]
theorem except_error_bind (e : ε) (f : α → Except ε β) :
    ((.error e : Except ε α) >>= f) = .error e := rfl

theorem except_pure (a : α) : (pure a : Except ε α) = .ok a := rfl

@[simp]
theorem except_map_ok (f : α → β) (a : α) : (Except.ok a : Except ε α).map f = .ok (f a) := rfl

@[simp]
theorem except_map_error (f : α → β) (e : ε) : (Except.error e : Except ε α).map f = .error e := rfl

/-- A map that fails on no element. -/
theorem mapM_ok {f : α → Except ε β} {g : α → β} : ∀ {l : List α}, (∀ a ∈ l, f a = .ok (g a)) →
    l.mapM f = .ok (l.map g) := by
  intro l
  induction l with
  | nil => exact fun _ => rfl
  | cons a rest ih =>
    intro h
    rw [List.forall_mem_cons] at h
    rw [List.mapM_cons, h.1, ih h.2]
    rfl

/-- A loop that stops at the first refused element, and was not stopped. -/
theorem mapM_guarded {p : α → Prop} [DecidablePred p] {e : ε} {g : α → β} : ∀ {l : List α} {l' : List β},
    l.mapM (fun a => if p a then .error e else .ok (g a) : α → Except ε β) = .ok l' → l' = l.map g ∧ ∀ a ∈ l, ¬p a := by
  intro l
  induction l with
  | nil =>
    intro l' h
    cases h
    exact ⟨rfl, fun a ha => by cases ha⟩
  | cons a rest ih =>
    intro l' h
    rw [List.mapM_cons] at h
    obtain ⟨b, hb, h⟩ := except_bind_eq_ok.1 h
    obtain ⟨tail, htail, h⟩ := except_bind_eq_ok.1 h
    cases h
    split at hb
    · cases hb
    · rename_i ha
      cases hb
      obtain ⟨rfl, hrest⟩ := ih htail
      refine ⟨rfl, ?_⟩
      rw [List.forall_mem_cons]
      exact ⟨ha, hrest⟩

end Except

section Unwinding

variable {α ε : Type}

/-- A `debug_assert!` that holds does nothing. -/
theorem debugAssert_pos {p : Prop} [Decidable p] (h : p) (message : String) :
    debugAssert p message = .ok () := if_pos h

@[simp]
theorem expectSome_some (message : String) (a : α) : expectSome message (some a) = .ok a := rfl

@[simp]
theorem expectOk_ok (message : String) (a : α) :
    expectOk message (.ok a : Except ε α) = .ok a := rfl

/-- An index in bounds does not unwind. -/
theorem indexed_eq {l : List α} {i : ℕ} {a : α} (h : l[i]? = some a) : indexed l i = .ok a := by
  unfold indexed
  rw [h]

/-- A `u128` addition in range does not overflow. -/
theorem addU128_eq {a b : ℕ} (h : a + b ≤ u128Max) : addU128 a b = .ok (a + b) := if_pos h

/-- A `usize` addition in range does not overflow. -/
theorem addUsize_eq {a b : ℕ} (h : a + b ≤ usizeMax) : addUsize a b = .ok (a + b) := if_pos h

end Unwinding

/-! ## Whole milliseconds -/

/-- The largest reading of a clock, in milliseconds. -/
def maxMillis : ℕ := maxNanos / 10 ^ 6

/-- Every reading of a clock fits. -/
theorem Duration.asMillis_le (d : Duration) : d.asMillis ≤ maxMillis :=
  Nat.div_le_div_right d.le_max

/-- `from_millis` is exact on every `u64`. -/
theorem Duration.fromMillis_nanos {millis : ℕ} (h : millis ≤ u64Max) :
    (Duration.fromMillis millis).nanos = millis * 10 ^ 6 := by
  unfold Duration.fromMillis
  have hmax : millis * 10 ^ 6 ≤ maxNanos := by
    unfold maxNanos u64Max at *
    omega
  exact min_eq_left hmax

theorem Duration.fromMillis_mono {a b : ℕ} (h : a ≤ b) : Duration.fromMillis a ≤ Duration.fromMillis b :=
  min_le_min_right _ (Nat.mul_le_mul_right _ h)

/-- Whole milliseconds are read back. -/
theorem Duration.asMillis_fromMillis {millis : ℕ} (h : millis ≤ u64Max) :
    (Duration.fromMillis millis).asMillis = millis := by
  unfold Duration.asMillis
  rw [Duration.fromMillis_nanos h]
  exact Nat.mul_div_cancel millis (by decide)

/-! ## Rounding up -/

/-- **Rounding up**: the quotient is the least that covers the numerator. -/
theorem divCeil_le_iff {a b c : ℕ} (hb : 0 < b) : divCeil a b ≤ c ↔ a ≤ c * b := by
  unfold divCeil
  have hdiv := Nat.div_add_mod a b
  have hmod := Nat.mod_lt a hb
  split
  · -- no remainder: the quotient is exact
    rename_i h0
    rw [h0, Nat.add_zero] at hdiv
    rw [Nat.add_zero]
    constructor
    · intro h
      calc a = b * (a / b) := hdiv.symm
        _ ≤ b * c := Nat.mul_le_mul_left b h
        _ = c * b := Nat.mul_comm b c
    · intro h
      rw [← hdiv, Nat.mul_comm c b] at h
      exact Nat.le_of_mul_le_mul_left h hb
  · rename_i h0
    constructor
    · intro h
      have hle : b * (a / b) + b ≤ c * b := by
        calc b * (a / b) + b = b * (a / b + 1) := by ring
          _ ≤ b * c := Nat.mul_le_mul_left b h
          _ = c * b := Nat.mul_comm b c
      omega
    · intro h
      by_contra hlt
      have hle : c * b ≤ b * (a / b) := by
        calc c * b ≤ a / b * b := Nat.mul_le_mul_right b (by omega)
          _ = b * (a / b) := Nat.mul_comm _ _
      omega

theorem lt_divCeil_iff {a b c : ℕ} (hb : 0 < b) : c < divCeil a b ↔ c * b < a := by
  rw [← not_le, divCeil_le_iff hb, not_le]

theorem divCeil_mono {a a' b : ℕ} (hb : 0 < b) (h : a ≤ a') : divCeil a b ≤ divCeil a' b :=
  (divCeil_le_iff hb).2 (le_trans h ((divCeil_le_iff hb).1 le_rfl))

/-- Whole multiples of the divisor can be taken out. -/
theorem divCeil_add_mul {a b c : ℕ} (hb : 0 < b) : divCeil (c * b + a) b = c + divCeil a b := by
  refine le_antisymm ((divCeil_le_iff hb).2 ?_) ?_
  · rw [Nat.add_mul]
    exact Nat.add_le_add_left ((divCeil_le_iff hb).1 le_rfl) _
  · have h := (divCeil_le_iff hb).1 (le_refl (divCeil (c * b + a) b))
    have hc : c ≤ divCeil (c * b + a) b := by
      by_contra hlt
      have : (divCeil (c * b + a) b + 1) * b ≤ c * b := Nat.mul_le_mul_right b (by omega)
      rw [Nat.add_mul] at this
      omega
    have : divCeil a b ≤ divCeil (c * b + a) b - c := by
      rw [divCeil_le_iff hb, Nat.sub_mul]
      omega
    omega

/-! ## Decimal text -/

/-- An ASCII character is one byte. -/
theorem utf8EncodeChar_ascii {c : Char} (h : c.toNat ≤ 0x7f) : String.utf8EncodeChar c = [UInt8.ofNat c.toNat] := by
  have hv : c.toNat = c.val.toNat := rfl
  simp only [String.utf8EncodeChar, if_pos (show c.val.toNat ≤ 0x7f by omega)]
  rfl

/-- The bytes of ASCII text are the codes of its characters. -/
theorem flatMap_utf8EncodeChar {text : List Char} (h : ∀ c ∈ text, c.toNat ≤ 0x7f) :
    text.flatMap String.utf8EncodeChar = text.map fun c => UInt8.ofNat c.toNat := by
  induction text with
  | nil => rfl
  | cons c text ih =>
    rw [List.forall_mem_cons] at h
    rw [List.flatMap_cons, utf8EncodeChar_ascii h.1, ih h.2]
    rfl

/-- A decimal text has a digit. -/
theorem decimal_ne_nil (value : ℕ) : decimal value ≠ [] := Nat.toDigits_ne_nil

theorem isDigit_of_mem_decimal {value : ℕ} {c : Char} (h : c ∈ decimal value) : c.isDigit = true :=
  Nat.isDigit_of_mem_toDigits (by decide) (by decide) h

/-- Decimal digits are read back. -/
theorem ofDigitChars_decimal (value : ℕ) : Nat.ofDigitChars 10 (decimal value) 0 = value :=
  Nat.ofDigitChars_ten_toDigits

/-- A `u128` is read back from its decimal text. -/
theorem parseU128_decimal {value : ℕ} (h : value ≤ u128Max) : parseU128 (decimal value) = some value := by
  have hdigits : ∀ c ∈ decimal value, c.isDigit = true := fun c hc => isDigit_of_mem_decimal hc
  -- a decimal text has no sign
  have hsign : ∀ rest, decimal value ≠ '+' :: rest := by
    intro rest heq
    have hplus := hdigits '+' (by rw [heq]; exact List.mem_cons_self)
    exact absurd hplus (by decide)
  have hne := decimal_ne_nil value
  unfold parseU128
  split
  · rename_i rest heq
    exact absurd heq (hsign rest)
  · rw [if_neg, ofDigitChars_decimal, if_pos h]
    simpa [hne] using hdigits

end Runlimit
