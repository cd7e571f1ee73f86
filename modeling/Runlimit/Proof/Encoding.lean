import Runlimit.Proof.Prim
import Runlimit.Spec.Policy

/-!
# The byte layouts parse uniquely

The fingerprint and subject-key layouts concatenate NUL-terminated identifiers and
fixed-width integers. Identifiers hold no NUL (`Identifier.zero_notMem`), so each
terminated field is read back from any continuation (`nulTerminated_append_inj`), and
`to_be_bytes` is injective on `u64` (`toBeBytes_inj`). Hence equal preimages have
equal fields, whatever the identifiers and numbers.
-/

namespace Runlimit

/-! ## Identifiers as bytes -/

/-- The characters of identifiers are ASCII, and none is NUL. -/
theorem tokenChar_ascii {c : Char} (h : tokenChar c = true) : 0 < c.toNat ∧ c.toNat < 128 := by
  simp only [tokenChar, Char.isAlphanum, Char.isAlpha, Char.isUpper, Char.isLower, Char.isDigit,
    Bool.or_eq_true, Bool.and_eq_true, decide_eq_true_eq, beq_iff_eq, UInt32.le_iff_toNat_le] at h
  have hv : c.toNat = c.val.toNat := rfl
  rcases h with ((((h | h) | h) | h) | h) | h
  · change ((65 ≤ c.val.toNat ∧ c.val.toNat ≤ 90) ∨ (97 ≤ c.val.toNat ∧ c.val.toNat ≤ 122)) ∨
      (48 ≤ c.val.toNat ∧ c.val.toNat ≤ 57) at h
    omega
  all_goals subst h; decide

/-- The loop accepts only the characters of tokens. -/
theorem validateChars_ok {cs : List Char} :
    ∀ {i : ℕ}, validateChars i cs = .ok () → ∀ c ∈ cs, tokenChar c = true := by
  induction cs with
  | nil => intro i _ c hc; simp at hc
  | cons d ds ih =>
    intro i h c hc
    unfold validateChars at h
    split at h
    · rename_i hd
      rcases List.mem_cons.1 hc with rfl | hc
      · exact hd
      · exact ih h c hc
    · cases h

theorem Identifier.token (id : Identifier) : ∀ c ∈ id.asStr.toList, tokenChar c = true := by
  have h := id.valid
  unfold validate at h
  split at h
  · cases h
  split at h
  · cases h
  exact validateChars_ok h

/-- The bytes of an identifier are the codes of its characters. -/
theorem Identifier.asBytes_eq (id : Identifier) :
    id.asBytes = id.asStr.toList.map fun c => UInt8.ofNat c.toNat := by
  refine flatMap_utf8EncodeChar ?_
  intro c hc
  have hascii := (tokenChar_ascii (id.token c hc)).2
  omega

/-- **No identifier contains a NUL byte.** -/
theorem Identifier.zero_notMem (id : Identifier) : (0 : UInt8) ∉ id.asBytes := by
  rw [id.asBytes_eq, List.mem_map]
  rintro ⟨c, hc, h0⟩
  have ha := tokenChar_ascii (id.token c hc)
  have := congrArg UInt8.toNat h0
  rw [UInt8.toNat_ofNat_of_lt' (by show c.toNat < 256; omega)] at this
  simp at this
  omega

/-- An identifier is read back from its bytes. -/
theorem Identifier.asBytes_inj {a b : Identifier} (h : a.asBytes = b.asBytes) : a = b := by
  rw [a.asBytes_eq, b.asBytes_eq] at h
  have ha := a.token
  have hb := b.token
  have hl : a.asStr.toList = b.asStr.toList := by
    generalize a.asStr.toList = l at h ha
    generalize b.asStr.toList = m at h hb
    induction l generalizing m with
    | nil => simpa using h.symm
    | cons c l ih =>
      cases m with
      | nil => simp at h
      | cons d m =>
        simp only [List.map_cons, List.cons.injEq] at h
        have hc := (tokenChar_ascii (ha c List.mem_cons_self)).2
        have hd := (tokenChar_ascii (hb d List.mem_cons_self)).2
        -- a code below 128 is one byte
        have hcd := congrArg UInt8.toNat h.1
        rw [UInt8.toNat_ofNat_of_lt' (by show c.toNat < 256; omega),
          UInt8.toNat_ofNat_of_lt' (by show d.toNat < 256; omega)] at hcd
        rw [Char.toNat_inj.1 hcd, ih (fun x hx => ha x (List.mem_cons_of_mem _ hx)) m h.2
          (fun x hx => hb x (List.mem_cons_of_mem _ hx))]
  have hs : a.asStr = b.asStr := String.toList_inj.1 hl
  cases a; cases b; simp_all

/-! ## Fields -/

/-- A NUL-terminated field without NULs is read back from any continuation. -/
theorem nulTerminated_append_inj {a b x y : List UInt8} (ha : (0 : UInt8) ∉ a) (hb : (0 : UInt8) ∉ b) :
    nulTerminated a ++ x = nulTerminated b ++ y ↔ a = b ∧ x = y := by
  unfold nulTerminated
  rw [List.append_assoc, List.append_assoc, List.singleton_append, List.singleton_append]
  constructor
  · intro h
    induction a generalizing b with
    | nil =>
      cases b with
      | nil => exact ⟨rfl, by simpa using h⟩
      | cons d b =>
        simp only [List.nil_append, List.cons_append, List.cons.injEq] at h
        -- the shorter field ends where the longer one would hold a NUL
        exact absurd (h.1 ▸ List.mem_cons_self) hb
    | cons c a ih =>
      cases b with
      | nil =>
        simp only [List.nil_append, List.cons_append, List.cons.injEq] at h
        exact absurd (h.1 ▸ List.mem_cons_self) ha
      | cons d b =>
        simp only [List.cons_append, List.cons.injEq] at h
        obtain ⟨h1, h2⟩ := ih (fun hm => ha (List.mem_cons_of_mem _ hm))
          (fun hm => hb (List.mem_cons_of_mem _ hm)) h.2
        exact ⟨by rw [h.1, h1], h2⟩
  · rintro ⟨rfl, rfl⟩; rfl

theorem toBeBytes_length (n : ℕ) : (toBeBytes n).length = 8 := rfl

/-- `u64::to_be_bytes` is injective. -/
theorem toBeBytes_inj {m n : ℕ} (hm : m < 2 ^ 64) (hn : n < 2 ^ 64) (h : toBeBytes m = toBeBytes n) :
    m = n := by
  simp only [toBeBytes, List.map_cons, List.map_nil, List.cons.injEq, and_true] at h
  have key : ∀ {x y : ℕ}, UInt8.ofNat (x % 256) = UInt8.ofNat (y % 256) → x % 256 = y % 256 := by
    intro x y hxy
    have := congrArg UInt8.toNat hxy
    rwa [UInt8.toNat_ofNat_of_lt' (Nat.mod_lt _ (by decide)),
      UInt8.toNat_ofNat_of_lt' (Nat.mod_lt _ (by decide))] at this
  -- the eight digits of a number below 2^64 to the base 256
  obtain ⟨h1, h2, h3, h4, h5, h6, h7, h8⟩ := h
  have := key h1; have := key h2; have := key h3; have := key h4
  have := key h5; have := key h6; have := key h7; have := key h8
  omega

/-- A fixed-width integer field is read back from any continuation. -/
theorem toBeBytes_append_inj {m n : ℕ} {x y : List UInt8} (hm : m < 2 ^ 64) (hn : n < 2 ^ 64) :
    toBeBytes m ++ x = toBeBytes n ++ y ↔ m = n ∧ x = y := by
  constructor
  · intro h
    obtain ⟨h1, h2⟩ := List.append_inj h (by rw [toBeBytes_length, toBeBytes_length])
    exact ⟨toBeBytes_inj hm hn h1, h2⟩
  · rintro ⟨rfl, rfl⟩; rfl

theorem Capacity.lt_u64 (c : Capacity) : c.get < 2 ^ 64 := by
  have := c.le_max; unfold maxLimit at this; omega

theorem QuotaPeriod.lt_u64 (p : QuotaPeriod) : p.millis < 2 ^ 64 := by
  have := p.le_max; unfold maxWindowMillis at this; omega

/-! ## Policy preimages -/

/-- The fields of a fixed-window policy are read back, one by one. -/
theorem FixedWindowPolicy.preimage_inj {p q : FixedWindowPolicy} (h : p.preimage = q.preimage) :
    p.id = q.id ∧ p.scope = q.scope ∧ p.limit = q.limit ∧ p.window = q.window := by
  unfold FixedWindowPolicy.preimage at h
  simp only [List.append_assoc] at h
  have h := (nulTerminated_append_inj (by decide) (by decide)).1 h
  obtain ⟨h1, h⟩ := (nulTerminated_append_inj p.id.zero_notMem q.id.zero_notMem).1 h.2
  obtain ⟨h2, h⟩ := (nulTerminated_append_inj p.scope.zero_notMem q.scope.zero_notMem).1 h
  obtain ⟨h3, h⟩ := (toBeBytes_append_inj p.limit.lt_u64 q.limit.lt_u64).1 h
  have h4 := toBeBytes_inj p.window.lt_u64 q.window.lt_u64 h
  exact ⟨Identifier.asBytes_inj h1, Identifier.asBytes_inj h2, Capacity.ext h3, QuotaPeriod.ext h4⟩

/-- Those of a GCRA policy too; the modes are not there. -/
theorem GcraPolicy.preimage_inj {p q : GcraPolicy} (h : p.preimage = q.preimage) :
    p.id = q.id ∧ p.scope = q.scope ∧ p.quota = q.quota ∧ p.period = q.period ∧
      p.burstCapacity = q.burstCapacity := by
  unfold GcraPolicy.preimage at h
  simp only [List.append_assoc] at h
  have h := (nulTerminated_append_inj (by decide) (by decide)).1 h
  obtain ⟨h1, h⟩ := (nulTerminated_append_inj p.id.zero_notMem q.id.zero_notMem).1 h.2
  obtain ⟨h2, h⟩ := (nulTerminated_append_inj p.scope.zero_notMem q.scope.zero_notMem).1 h
  obtain ⟨h3, h⟩ := (toBeBytes_append_inj p.quota.lt_u64 q.quota.lt_u64).1 h
  obtain ⟨h4, h⟩ := (toBeBytes_append_inj p.period.lt_u64 q.period.lt_u64).1 h
  have h5 := toBeBytes_inj p.burstCapacity.lt_u64 q.burstCapacity.lt_u64 h
  exact ⟨Identifier.asBytes_inj h1, Identifier.asBytes_inj h2, Capacity.ext h3, QuotaPeriod.ext h4,
    Capacity.ext h5⟩

/-- And all fields of an attempt policy. -/
theorem AttemptPolicy.preimage_inj {p q : AttemptPolicy} (h : p.preimage = q.preimage) : p = q := by
  unfold AttemptPolicy.preimage at h
  simp only [List.append_assoc, List.flatMap_cons, List.flatMap_nil, List.append_nil] at h
  have h := (nulTerminated_append_inj (by decide) (by decide)).1 h
  obtain ⟨h1, h⟩ := (nulTerminated_append_inj p.id.zero_notMem q.id.zero_notMem).1 h.2
  obtain ⟨h2, h⟩ := (nulTerminated_append_inj p.scope.zero_notMem q.scope.zero_notMem).1 h
  obtain ⟨h3, h⟩ := (toBeBytes_append_inj p.initialDelay.lt_u64 q.initialDelay.lt_u64).1 h
  obtain ⟨h4, h⟩ := (toBeBytes_append_inj p.maximumDelay.lt_u64 q.maximumDelay.lt_u64).1 h
  obtain ⟨h5, h⟩ := (toBeBytes_append_inj p.quietPeriod.lt_u64 q.quietPeriod.lt_u64).1 h
  have h6 := toBeBytes_inj p.lease.lt_u64 q.lease.lt_u64 h
  cases p; cases q
  simp only [AttemptPolicy.mk.injEq]
  exact ⟨Identifier.asBytes_inj h1, Identifier.asBytes_inj h2, QuotaPeriod.ext h3, QuotaPeriod.ext h4,
    QuotaPeriod.ext h5, QuotaPeriod.ext h6⟩

/-! ## Pinned vectors

Policies of the crates' tests, and SHA-256 and HMAC-SHA-256 on what they feed to it. -/

/-- An ordinary policy `auth.login`/`identity`. -/
def loginPolicy : FixedWindowPolicy :=
  ⟨⟨"auth.login", by decide⟩, ⟨"identity", by decide⟩, ⟨8, by decide, by decide⟩,
    ⟨60000, by decide, by decide⟩, .enforce⟩

/-- A small window under other identifiers. -/
def searchPolicy : FixedWindowPolicy :=
  ⟨⟨"api.search", by decide⟩, ⟨"account", by decide⟩, ⟨3, by decide, by decide⟩,
    ⟨1000, by decide, by decide⟩, .enforce⟩

/-- The GCRA policy whose fingerprint the crate's tests pin. -/
def readPolicy : GcraPolicy :=
  ⟨⟨"api.read", by decide⟩, ⟨"account", by decide⟩, ⟨10, by decide, by decide⟩,
    ⟨1000, by decide, by decide⟩, ⟨20, by decide, by decide⟩, .enforce, by decide⟩

def writePolicy : GcraPolicy :=
  ⟨⟨"api.write", by decide⟩, ⟨"account", by decide⟩, ⟨1, by decide, by decide⟩,
    ⟨1000, by decide, by decide⟩, ⟨2, by decide, by decide⟩, .enforce, by decide⟩

/-- An attempt policy with the identifiers of `loginPolicy`. -/
def loginAttempts : AttemptPolicy :=
  ⟨⟨"auth.login", by decide⟩, ⟨"identity", by decide⟩, ⟨10, by decide, by decide⟩,
    ⟨40, by decide, by decide⟩, ⟨100, by decide, by decide⟩, ⟨20, by decide, by decide⟩,
    by decide, by decide⟩

/-- SHA-256 on the five fingerprint layouts above. -/
def vectorSha256 (message : List UInt8) : Digest :=
  if message = loginPolicy.preimage then
    ⟨[145, 106, 15, 219, 56, 7, 141, 37, 133, 79, 216, 245, 145, 208, 181, 198, 25, 171, 212, 253,
      147, 211, 39, 239, 191, 127, 12, 228, 212, 91, 254, 81], rfl⟩
  else if message = searchPolicy.preimage then
    ⟨[215, 207, 126, 12, 48, 108, 13, 26, 15, 236, 223, 254, 22, 53, 123, 244, 151, 39, 149, 44, 145,
      156, 237, 182, 150, 22, 238, 148, 182, 141, 199, 97], rfl⟩
  else if message = readPolicy.preimage then
    ⟨[192, 170, 194, 194, 187, 173, 27, 110, 122, 98, 109, 168, 241, 3, 66, 158, 104, 99, 115, 109,
      254, 35, 189, 212, 182, 197, 133, 59, 128, 38, 13, 84], rfl⟩
  else if message = writePolicy.preimage then
    ⟨[217, 171, 242, 228, 36, 161, 229, 176, 103, 74, 79, 118, 174, 223, 242, 132, 245, 193, 76, 118,
      249, 250, 67, 55, 253, 165, 156, 182, 49, 8, 245, 84], rfl⟩
  else
    ⟨[250, 41, 21, 21, 90, 230, 249, 190, 235, 21, 228, 103, 117, 65, 202, 193, 127, 152, 123, 187, 55,
      50, 158, 131, 199, 240, 96, 126, 189, 162, 122, 169], rfl⟩

/-- HMAC-SHA-256 under the key `[0x42; 32]` on the test subject of an ordinary policy (the
vector the crate's tests pin) and of an attempt policy. -/
def vectorHmac (message : List UInt8) : Digest :=
  if message = keyDomain ++ strBytes "auth.login\x00identity\x00user@example.test" then
    ⟨[126, 140, 53, 77, 26, 155, 140, 17, 235, 245, 253, 95, 203, 130, 88, 111, 218, 206, 190, 241,
      255, 21, 130, 159, 224, 176, 121, 209, 49, 34, 188, 33], rfl⟩
  else
    ⟨[226, 148, 134, 2, 170, 6, 124, 236, 64, 154, 121, 134, 107, 54, 240, 2, 127, 35, 137, 252,
      153, 151, 88, 15, 45, 169, 117, 194, 57, 246, 232, 90], rfl⟩

abbrev vectorSha2 : Sha2 := ⟨vectorSha256, fun _ => vectorHmac⟩

/-- Fixed-window fingerprints do not collide on the pinned policies. -/
theorem vector_fixedWindow_injOn :
    Set.InjOn vectorSha256 (FixedWindowPolicy.preimage '' {loginPolicy, searchPolicy}) := by
  have hne : vectorSha256 loginPolicy.preimage ≠ vectorSha256 searchPolicy.preimage := by decide
  rw [Set.image_pair]
  rintro a (rfl | rfl) b (rfl | rfl) h
  · rfl
  · exact absurd h hne
  · exact absurd h.symm hne
  · rfl

/-- GCRA fingerprints do not collide on the pinned policies. -/
theorem vector_gcra_injOn :
    Set.InjOn vectorSha256 (GcraPolicy.preimage '' {readPolicy, writePolicy}) := by
  have hne : vectorSha256 readPolicy.preimage ≠ vectorSha256 writePolicy.preimage := by decide
  rw [Set.image_pair]
  rintro a (rfl | rfl) b (rfl | rfl) h
  · rfl
  · exact absurd h hne
  · exact absurd h.symm hne
  · rfl

end Runlimit
