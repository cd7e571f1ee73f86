import Mathlib

/-!
# The language primitives the crates rest on

Machine integers are natural numbers with the bounds of their Rust type written
out where an operation can meet them: `u32`, `u64`, `u128`, and `usize` on a
64-bit target. A call that unwinds is an error of the `Panics` monad, one
constructor for each way the sources can unwind, so an `expect` or a
`debug_assert!` stays visible in the model of the function that holds it.
-/

namespace Runlimit

def u32Max : ℕ := 2 ^ 32 - 1

def u64Max : ℕ := 2 ^ 64 - 1

def u128Max : ℕ := 2 ^ 128 - 1

/-- `usize::MAX` on a 64-bit target. -/
def usizeMax : ℕ := 2 ^ 64 - 1

/-! ## Unwinding -/

/-- Why a call unwinds. -/
inductive Panic where
  /-- A caller-supplied clock panicked. -/
  | clock
  /-- An `expect` on an absent value or an error. -/
  | expect (message : String)
  /-- A failed `debug_assert!`, `debug_assert_eq!` or arithmetic overflow check. -/
  | debugAssert (message : String)
  /-- A slice index out of bounds. -/
  | index
  deriving DecidableEq, Repr

abbrev Panics := Except Panic

/-- `debug_assert!(p, message)`. -/
def debugAssert (p : Prop) [Decidable p] (message : String) : Panics Unit :=
  if p then .ok () else .error (.debugAssert message)

/-- `value.expect(message)` on an `Option`. -/
def expectSome {α : Type} (message : String) : Option α → Panics α
  | some a => .ok a
  | none => .error (.expect message)

/-- `value.expect(message)` on a `Result`. -/
def expectOk {ε α : Type} (message : String) : Except ε α → Panics α
  | .ok a => .ok a
  | .error _ => .error (.expect message)

/-- `slice[i]`. -/
def indexed {α : Type} (l : List α) (i : ℕ) : Panics α :=
  match l[i]? with
  | some a => .ok a
  | none => .error .index

/-- What a call does for its caller: it returns a value, or it unwinds. -/
inductive CallResult (α : Type) where
  | returned (a : α)
  | panicked
  deriving DecidableEq, Repr

/-- `std::sync::Mutex`: the data, and whether a holder has unwound. -/
structure Mutex (α : Type) where
  data : α
  poisoned : Bool := false

/-! ## Integer arithmetic -/

/-- `a.checked_mul(b)` on `u128`. -/
def checkedMul (a b : ℕ) : Option ℕ :=
  if a * b ≤ u128Max then some (a * b) else none

/-- `a.checked_add(b)` on `u128`. -/
def checkedAdd (a b : ℕ) : Option ℕ :=
  if a + b ≤ u128Max then some (a + b) else none

/-- `a + b` on `u128`, which unwinds on overflow in a checked build. -/
def addU128 (a b : ℕ) : Panics ℕ :=
  if a + b ≤ u128Max then .ok (a + b) else .error (.debugAssert "attempt to add with overflow")

/-- `a + b` on `usize`, which unwinds on overflow in a checked build. -/
def addUsize (a b : ℕ) : Panics ℕ :=
  if a + b ≤ usizeMax then .ok (a + b) else .error (.debugAssert "attempt to add with overflow")

/-- `a.saturating_mul(b)` on `usize`. -/
def saturatingMul (a b : ℕ) : ℕ := min (a * b) usizeMax

/-- `numerator.div_ceil(denominator)` for a nonzero denominator. -/
def divCeil (numerator denominator : ℕ) : ℕ :=
  numerator / denominator + if numerator % denominator = 0 then 0 else 1

/-- `value.to_be_bytes()` on `u64`. -/
def toBeBytes (value : ℕ) : List UInt8 :=
  [value / 2 ^ 56, value / 2 ^ 48, value / 2 ^ 40, value / 2 ^ 32,
    value / 2 ^ 24, value / 2 ^ 16, value / 2 ^ 8, value].map fun x => UInt8.ofNat (x % 256)

/-! ## Durations -/

/-- `std::time::Duration::MAX`, in nanoseconds. -/
def maxNanos : ℕ := u64Max * 10 ^ 9 + 999999999

/-- `std::time::Duration`, as its nanosecond count. -/
@[ext]
structure Duration where
  nanos : ℕ
  le_max : nanos ≤ maxNanos

namespace Duration

instance : DecidableEq Duration := fun a b => decidable_of_iff (a.nanos = b.nanos) Duration.ext_iff.symm

instance : LinearOrder Duration := LinearOrder.lift' Duration.nanos fun _ _ h => Duration.ext h

instance : Repr Duration := ⟨fun d => reprPrec d.nanos⟩

def zero : Duration := ⟨0, Nat.zero_le _⟩

/-- `Duration::from_millis(millis)`; exact for every `u64`. -/
def fromMillis (millis : ℕ) : Duration := ⟨min (millis * 10 ^ 6) maxNanos, min_le_right _ _⟩

/-- `self.as_millis()`. -/
def asMillis (d : Duration) : ℕ := d.nanos / 10 ^ 6

/-- `self.saturating_add(other)`. -/
def saturatingAdd (a b : Duration) : Duration := ⟨min (a.nanos + b.nanos) maxNanos, min_le_right _ _⟩

/-- `self.saturating_sub(other)`. -/
def saturatingSub (a b : Duration) : Duration :=
  ⟨a.nanos - b.nanos, le_trans (Nat.sub_le _ _) a.le_max⟩

end Duration

/-- `core::Delay`: a backend-reported duration until a quota event. -/
structure Delay where
  duration : Duration
  deriving DecidableEq, Repr

/-! ## Byte strings -/

/-- `[u8; 32]`. -/
@[ext]
structure Digest where
  bytes : List UInt8
  length_eq : bytes.length = 32

namespace Digest

instance : DecidableEq Digest := fun a b => decidable_of_iff (a.bytes = b.bytes) Digest.ext_iff.symm

/-- The derived order of `[u8; 32]`: lexicographic on the bytes. -/
instance : LinearOrder Digest :=
  LinearOrder.lift' (fun d => d.bytes.map UInt8.toNat) fun _ _ h =>
    Digest.ext (List.map_injective_iff.2 (fun _ _ => UInt8.toNat_inj.1) h)

/-- `[byte; 32]`. -/
def replicate (byte : UInt8) : Digest := ⟨List.replicate 32 byte, List.length_replicate⟩

end Digest

/-- `value.as_bytes()` of a string slice. -/
def strBytes (value : String) : List UInt8 := value.toList.flatMap String.utf8EncodeChar

/-! ## Decimal text -/

/-- `value.to_string()` of an unsigned integer. -/
def decimal (value : ℕ) : List Char := Nat.toDigits 10 value

/-- `text.parse::<u128>()`: digits after an optional plus sign, unless the value is out of range. -/
def parseU128 (text : List Char) : Option ℕ :=
  let digits := match text with
    | '+' :: rest => rest
    | _ => text
  if digits.isEmpty || !digits.all Char.isDigit then none
  else if Nat.ofDigitChars 10 digits 0 ≤ u128Max then some (Nat.ofDigitChars 10 digits 0)
  else none

end Runlimit
