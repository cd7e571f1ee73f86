import Runlimit.Proof.Prim
import Runlimit.Spec.RateLimitFields

/-!
# The response fields say what they mean

The text of a field is the serialisation of a String item with two Integer parameters, so that a
reader of RFC 9651 gets the name and the numbers back, whatever the name says. Main results:

* `encodePolicyName_ok_iff`: which names are encoded, and as what;
* `ceilSeconds_le_iff`: the saturation of `Delay::seconds` is beyond the numbers that are emitted;
* `rate_limit_fields_exact`: both fields.
-/

namespace Runlimit

open StructuredField

namespace Draft11

/-! ## Names -/

/-- The names that can be shown: not empty, not long, and visible ASCII. -/
structure ValidName (name : String) : Prop where
  nonempty : name ≠ ""
  length_le : name.utf8ByteSize ≤ 128
  visible : ∀ c ∈ name.toList, 0x20 ≤ c.toNat ∧ c.toNat ≤ 0x7e

/-- The range test of the encoder, on code points. -/
theorem isPrintable_iff {c : Char} : isPrintable c = true ↔ 0x20 ≤ c.toNat ∧ c.toNat ≤ 0x7e := by
  unfold isPrintable
  rw [decide_eq_true_eq]
  exact Iff.rfl

/-- The loop fails at the first character out of range, and escapes the others. -/
theorem encodeCharacters_ok_iff {text encoded : List Char} : ∀ {index : ℕ},
    encodeCharacters index text = .ok encoded ↔
      (∀ c ∈ text, isPrintable c = true) ∧ encoded = text.flatMap escape ++ ['"'] := by
  induction text generalizing encoded with
  | nil =>
    intro index
    simp only [encodeCharacters, Except.ok.injEq, List.not_mem_nil, List.flatMap_nil, List.nil_append]
    exact ⟨fun h => ⟨fun c hc => hc.elim, h.symm⟩, fun h => h.2.symm⟩
  | cons c text ih =>
    intro index
    rw [encodeCharacters, List.forall_mem_cons, List.flatMap_cons]
    by_cases hc : ' ' ≤ c ∧ c ≤ '~'
    · have hprintable : isPrintable c = true := decide_eq_true hc
      rw [if_neg (not_not.2 hc)]
      cases hrest : encodeCharacters (index + c.utf8Size) text with
      | error error =>
        -- an error later in the text is one of a later character
        have hnot : ¬ ∀ c ∈ text, isPrintable c = true := by
          intro hall
          have hok := (@ih _ (index + c.utf8Size)).2 ⟨hall, rfl⟩
          rw [hrest] at hok
          cases hok
        constructor
        · intro h
          cases h
        · intro h
          exact absurd h.1.2 hnot
      | ok rest =>
        obtain ⟨hall, rfl⟩ := ih.1 hrest
        -- the two branches of the loop are `escape`
        have hencoded : (if c = '"' ∨ c = '\\' then pure ('\\' :: c :: (text.flatMap escape ++ ['"']))
            else pure (c :: (text.flatMap escape ++ ['"'])) : Except EncodingError (List Char)) =
            .ok (escape c ++ text.flatMap escape ++ ['"']) := by
          unfold escape
          split
          · rfl
          · rfl
        change (if c = '"' ∨ c = '\\' then pure ('\\' :: c :: (text.flatMap escape ++ ['"']))
            else pure (c :: (text.flatMap escape ++ ['"'])) : Except EncodingError (List Char)) = .ok encoded ↔ _
        rw [hencoded, Except.ok.injEq]
        exact ⟨fun h => ⟨⟨hprintable, hall⟩, h.symm⟩, fun h => h.2.symm⟩
    · have hprintable : ¬ isPrintable c = true := fun h => hc (of_decide_eq_true h)
      rw [if_pos hc]
      constructor
      · intro h
        cases h
      · intro h
        exact absurd h.1.1 hprintable

/-- Which names are encoded, and as what. -/
theorem encodePolicyName_ok_iff {name : String} {encoded : List Char} :
    encodePolicyName name = .ok encoded ↔ ValidName name ∧ encoded = serializeString name.toList := by
  unfold encodePolicyName
  by_cases hempty : name.isEmpty = true
  · rw [if_pos hempty]
    constructor
    · intro h
      cases h
    · intro h
      exact absurd (String.isEmpty_iff.1 hempty) h.1.nonempty
  · rw [if_neg hempty]
    by_cases hlong : maxPolicyNameLength < name.utf8ByteSize
    · rw [if_pos hlong]
      constructor
      · intro h
        cases h
      · intro h
        exact absurd h.1.length_le (Nat.not_le.2 hlong)
    · rw [if_neg hlong]
      cases hrest : encodeCharacters 0 name.toList with
      | error error =>
        constructor
        · intro h
          cases h
        · intro h
          have hok := (@encodeCharacters_ok_iff _ _ 0).2
            ⟨fun c hc => isPrintable_iff.2 (h.1.visible c hc), rfl⟩
          rw [hrest] at hok
          cases hok
      | ok rest =>
        obtain ⟨hall, rfl⟩ := encodeCharacters_ok_iff.1 hrest
        have hvalid : ValidName name :=
          ⟨fun h => hempty (String.isEmpty_iff.2 h), Nat.not_lt.1 hlong, fun c hc => isPrintable_iff.1 (hall c hc)⟩
        change (.ok (serializeString name.toList) : Except EncodingError (List Char)) = .ok encoded ↔ _
        rw [Except.ok.injEq]
        exact ⟨fun h => ⟨hvalid, h.symm⟩, fun h => h.2.symm⟩

/-- The integers that a structured field can show. -/
theorem structuredInteger_ok_iff {value n : ℕ} :
    structuredInteger value = .ok n ↔ value ≤ 999999999999999 ∧ n = value := by
  unfold structuredInteger maxStructuredFieldInteger
  split
  · rename_i h
    constructor
    · intro h'
      cases h'
    · intro h'
      omega
  · rename_i h
    rw [Except.ok.injEq]
    exact ⟨fun h' => ⟨by omega, h'.symm⟩, fun h' => h'.2.symm⟩

/-! ## Delays -/

/-- A delay, rounded up to whole seconds. -/
def ceilSeconds (delay : Delay) : ℕ := (delay.duration.nanos + (10 ^ 9 - 1)) / 10 ^ 9

/-- Rounding up saturates only at the greatest `u64`. -/
theorem seconds_eq (delay : Delay) : delay.seconds = min (ceilSeconds delay) u64Max := by
  have hmax := delay.duration.le_max
  have hnanos : maxNanos = u64Max * 10 ^ 9 + 999999999 := rfl
  unfold Delay.seconds ceilSeconds
  simp only
  split
  · omega
  · omega

/-- A number that is emitted is not one that saturated. -/
theorem ceilSeconds_le_iff {delay : Delay} :
    delay.seconds ≤ 999999999999999 ↔ ceilSeconds delay ≤ 999999999999999 := by
  have hu64 : 999999999999999 < u64Max := by decide
  rw [seconds_eq]
  omega

/-- A number that is emitted is the ceiling. -/
theorem seconds_of_le {delay : Delay} (h : delay.seconds ≤ 999999999999999) : delay.seconds = ceilSeconds delay := by
  have hu64 : 999999999999999 < u64Max := by decide
  rw [seconds_eq] at h ⊢
  omega

/-! ## Fields -/

/-- What `rate_limit_fields_exact` says of one function: it does not unwind, it succeeds exactly on
what it can show, and then its value is visible ASCII that reads as one member. -/
structure ExactField (result : Panics (Except EncodingError HeaderField)) (fieldName name : String)
    (parameters : List (Key × ℕ)) (shown : Prop) : Prop where
  returns : ∃ r, result = .ok r
  ok_iff : (∃ field, result = .ok (.ok field)) ↔ shown
  named : ∀ field, result = .ok (.ok field) → field.name = fieldName
  visible : ∀ field, result = .ok (.ok field) → ∀ byte ∈ field.value, 0x20 ≤ byte ∧ byte ≤ 0x7e
  read : ∀ field, result = .ok (.ok field) →
    parseList field.value = some [.item ⟨.string name.toList, parameters.map fun p => (p.1, .integer p.2)⟩]

section Fields

variable {accepts : List UInt8 → Bool}
  (haccepts : ∀ bytes : List UInt8, (∀ byte ∈ bytes, 0x20 ≤ byte ∧ byte ≤ 0x7e) → accepts bytes = true)

/-- Escaping adds nothing that is not printable. -/
theorem isPrintable_escape {c d : Char} (h : isPrintable c = true) (hd : d ∈ escape c) : isPrintable d = true := by
  unfold escape at hd
  split at hd
  · rcases List.mem_cons.1 hd with rfl | hd
    · decide
    · rwa [List.mem_singleton.1 hd]
  · rwa [List.mem_singleton.1 hd]

theorem isPrintable_serializeString {value : List Char} (h : ∀ c ∈ value, isPrintable c = true) :
    ∀ c ∈ serializeString value, isPrintable c = true := by
  intro c hc
  unfold serializeString at hc
  rcases List.mem_cons.1 hc with rfl | hc
  · decide
  · rcases List.mem_append.1 hc with hc | hc
    · obtain ⟨d, hd, hcd⟩ := List.mem_flatMap.1 hc
      exact isPrintable_escape (h d hd) hcd
    · rw [List.mem_singleton.1 hc]
      decide

theorem isPrintable_of_isDigit {c : Char} (h : c.isDigit = true) : isPrintable c = true := by
  unfold Char.isDigit at h
  rw [isPrintable_iff]
  simp only [Bool.and_eq_true, decide_eq_true_eq, ge_iff_le, UInt32.le_iff_toNat_le] at h
  have hval : c.toNat = c.val.toNat := rfl
  have h0 : '0'.val.toNat = 48 := rfl
  have h9 : '9'.val.toNat = 57 := rfl
  omega

theorem isPrintable_of_isLowerAlpha {c : Char} (h : isLowerAlpha c = true) : isPrintable c = true := by
  unfold isLowerAlpha at h
  rw [decide_eq_true_eq] at h
  have hlow : 97 ≤ c.toNat := h.1
  have hhigh : c.toNat ≤ 122 := h.2
  rw [isPrintable_iff]
  omega

theorem isPrintable_of_isKey {key : Key} (h : isKey key = true) : ∀ c ∈ key, isPrintable c = true := by
  have hchar : ∀ c, isKeyChar c = true → isPrintable c = true := by
    intro c hc
    unfold isKeyChar at hc
    simp only [Bool.or_eq_true, beq_iff_eq] at hc
    rcases hc with ((((hc | hc) | rfl) | rfl) | rfl) | rfl
    · exact isPrintable_of_isLowerAlpha hc
    · exact isPrintable_of_isDigit hc
    all_goals decide
  have hstart : ∀ c, isKeyStart c = true → isPrintable c = true := by
    intro c hc
    unfold isKeyStart at hc
    simp only [Bool.or_eq_true, beq_iff_eq] at hc
    rcases hc with hc | rfl
    · exact isPrintable_of_isLowerAlpha hc
    · decide
  cases key with
  | nil => cases h
  | cons c rest =>
    unfold isKey at h
    rw [Bool.and_eq_true, List.all_eq_true] at h
    rw [List.forall_mem_cons]
    exact ⟨hstart c h.1, fun d hd => hchar d (h.2 d hd)⟩

theorem isPrintable_serializeParameters {parameters : List (Key × ℕ)}
    (h : ∀ p ∈ parameters, isKey p.1 = true) :
    ∀ c ∈ serializeParameters parameters, isPrintable c = true := by
  intro c hc
  obtain ⟨p, hp, hc⟩ := List.mem_flatMap.1 hc
  rcases List.mem_cons.1 hc with rfl | hc
  · decide
  · rcases List.mem_append.1 hc with hc | hc
    · exact isPrintable_of_isKey (h p hp) c hc
    · rcases List.mem_cons.1 hc with rfl | hc
      · decide
      · exact isPrintable_of_isDigit (isDigit_of_mem_toDigits hc)

include haccepts in
/-- A text that is the serialisation of a name and parameters makes an exact field. -/
theorem exactField_of_text {text : Except EncodingError (List Char)} {name : String}
    {parameters : List (Key × ℕ)} {shown : Prop} (fieldName : String)
    (hkeys : ∀ p ∈ parameters, isKey p.1 = true)
    (hnodup : (parameters.map Prod.fst).Nodup)
    (hok : ∀ encoded, text = .ok encoded ↔ shown ∧ encoded = serializeItem name.toList parameters)
    (hshown : shown → ValidName name ∧ ∀ p ∈ parameters, p.2 ≤ 999999999999999) :
    ExactField (fieldOf accepts fieldName text) fieldName name parameters shown := by
  cases htext : text with
  | error error =>
    have hnot : ¬ shown := by
      intro h
      have hencoded := (hok _).2 ⟨h, rfl⟩
      rw [htext] at hencoded
      cases hencoded
    -- a text that fails makes no field, so nothing else is to be shown
    have hno : ∀ field, fieldOf accepts fieldName (.error error) ≠ .ok (.ok field) := by
      intro field h
      cases h
    exact ⟨⟨_, rfl⟩, ⟨fun h => absurd h.choose_spec (hno _), fun h => absurd h hnot⟩,
      fun field h => absurd h (hno field), fun field h => absurd h (hno field), fun field h => absurd h (hno field)⟩
  | ok encoded =>
    obtain ⟨h, rfl⟩ := (hok encoded).1 htext
    obtain ⟨hname, hsmall⟩ := hshown h
    have hvalue : ∀ c ∈ name.toList, isPrintable c = true := fun c hc => isPrintable_iff.2 (hname.visible c hc)
    have hprintable : ∀ c ∈ serializeItem name.toList parameters, isPrintable c = true := by
      intro c hc
      rcases List.mem_append.1 hc with hc | hc
      · exact isPrintable_serializeString hvalue c hc
      · exact isPrintable_serializeParameters hkeys c hc
    have hascii : ∀ c ∈ serializeItem name.toList parameters, c.toNat ≤ 0x7f := by
      intro c hc
      have hrange := isPrintable_toNat (hprintable c hc)
      omega
    -- ASCII text: one byte a character, and the bytes are what `http` accepts
    have hbytes : (serializeItem name.toList parameters).flatMap String.utf8EncodeChar =
        asciiBytes (serializeItem name.toList parameters) := flatMap_utf8EncodeChar hascii
    have hvisible : ∀ byte ∈ asciiBytes (serializeItem name.toList parameters), 0x20 ≤ byte ∧ byte ≤ 0x7e := by
      intro byte hbyte
      obtain ⟨c, hc, rfl⟩ := List.mem_map.1 hbyte
      have hrange := isPrintable_toNat (hprintable c hc)
      have hnat : (UInt8.ofNat c.toNat).toNat = c.toNat := by
        rw [UInt8.toNat_ofNat']
        exact Nat.mod_eq_of_lt (by omega)
      rw [UInt8.le_iff_toNat_le, UInt8.le_iff_toNat_le, hnat]
      exact hrange
    have hfield : fieldOf accepts fieldName (.ok (serializeItem name.toList parameters)) =
        .ok (.ok ⟨fieldName, asciiBytes (serializeItem name.toList parameters)⟩) := by
      unfold fieldOf headerValue
      simp only [hbytes]
      rw [if_pos (haccepts _ hvisible)]
      rfl
    have honly : ∀ field, fieldOf accepts fieldName (.ok (serializeItem name.toList parameters)) = .ok (.ok field) →
        field = ⟨fieldName, asciiBytes (serializeItem name.toList parameters)⟩ := by
      intro field hresult
      rw [hfield] at hresult
      exact (Except.ok.inj (Except.ok.inj hresult)).symm
    refine ⟨⟨_, hfield⟩, ⟨fun _ => h, fun _ => ⟨_, hfield⟩⟩, ?_, ?_, ?_⟩
    · intro field hresult
      rw [honly field hresult]
    · intro field hresult
      rw [honly field hresult]
      exact hvisible
    · intro field hresult
      rw [honly field hresult]
      -- the parameters are keys, each once, with numbers of at most fifteen digits
      refine parseList_serializeItem hvalue ?_ hnodup hprintable
      intro p hp
      have hle := hsmall p hp
      exact ⟨hkeys p hp, by omega⟩

/-- The text of a name and two numbers. -/
theorem text_eq_serializeItem (value : List Char) (key key' : Key) (n n' : ℕ) :
    serializeString value ++ (';' :: (key ++ ['='])) ++ decimal n ++ (';' :: (key' ++ ['='])) ++ decimal n' =
      serializeItem value [(key, n), (key', n')] := by
  simp [serializeItem, serializeParameters, decimal]

/-- Which policies have a quota field, and its text. -/
theorem quotaPolicyText_ok_iff {P : Type} [RateLimitPolicy P] {name : String} {policy : P} (encoded : List Char) :
    quotaPolicyText name policy = .ok encoded ↔
      (ValidName name ∧ (RateLimitPolicy.quota policy).get ≤ 999999999999999 ∧
        1000 ∣ (RateLimitPolicy.quotaPeriod policy).millis ∧
        (RateLimitPolicy.quotaPeriod policy).millis / 1000 ≤ 999999999999999) ∧
      encoded = serializeItem name.toList [(['q'], (RateLimitPolicy.quota policy).get),
        (['w'], (RateLimitPolicy.quotaPeriod policy).millis / 1000)] := by
  constructor
  · intro h
    unfold quotaPolicyText at h
    obtain ⟨shown, hname, h⟩ := except_bind_eq_ok.1 h
    obtain ⟨quota, hquota, h⟩ := except_bind_eq_ok.1 h
    obtain ⟨hvalid, rfl⟩ := encodePolicyName_ok_iff.1 hname
    obtain ⟨hquotaLe, rfl⟩ := structuredInteger_ok_iff.1 hquota
    simp only at h
    split at h
    · cases h
    · -- a period that is not of whole seconds is refused before its range is looked at
      rename_i hwhole
      obtain ⟨period, hperiod, h⟩ := except_bind_eq_ok.1 h
      obtain ⟨hperiodLe, rfl⟩ := structuredInteger_ok_iff.1 hperiod
      refine ⟨⟨hvalid, hquotaLe, not_not.1 hwhole, hperiodLe⟩, ?_⟩
      rw [← text_eq_serializeItem]
      exact (Except.ok.inj h).symm
  · rintro ⟨⟨hvalid, hquota, hwhole, hperiod⟩, rfl⟩
    unfold quotaPolicyText
    rw [encodePolicyName_ok_iff.2 ⟨hvalid, rfl⟩, structuredInteger_ok_iff.2 ⟨hquota, rfl⟩, ← text_eq_serializeItem]
    change (if ¬ 1000 ∣ (RateLimitPolicy.quotaPeriod policy).millis then _ else do
      let period ← structuredInteger ((RateLimitPolicy.quotaPeriod policy).millis / 1000)
      _) = _
    rw [if_neg (not_not.2 hwhole), structuredInteger_ok_iff.2 ⟨hperiod, rfl⟩]
    rfl

/-- The number of units a field offers, and the delay it gives. -/
def QuotaState.available? : QuotaState → ℕ
  | .available allowance => allowance.available
  | .exhausted _ => 0

def QuotaState.delay : QuotaState → Delay
  | .available allowance => allowance.replenishesAfter
  | .exhausted denial => denial.retryAfter

/-- Which states have a limit field, and its text. -/
theorem serviceLimitText_ok_iff {name : String} {state : QuotaState} (encoded : List Char) :
    serviceLimitText name state = .ok encoded ↔
      (ValidName name ∧ state.available? ≤ 999999999999999 ∧ ceilSeconds state.delay ≤ 999999999999999) ∧
      encoded = serializeItem name.toList [(['r'], state.available?), (['t'], ceilSeconds state.delay)] := by
  -- both states go through the same three steps
  have htext : serviceLimitText name state = (do
      let name ← encodePolicyName name
      let available ← structuredInteger state.available?
      let effectiveWindow ← structuredInteger state.delay.seconds
      return name ++ ";r=".toList ++ decimal available ++ ";t=".toList ++ decimal effectiveWindow) := by
    cases state with
    | available allowance => rfl
    | exhausted denial => rfl
  rw [htext, ← ceilSeconds_le_iff]
  constructor
  · intro h
    obtain ⟨shown, hname, h⟩ := except_bind_eq_ok.1 h
    obtain ⟨available, havailable, h⟩ := except_bind_eq_ok.1 h
    obtain ⟨window, hwindow, h⟩ := except_bind_eq_ok.1 h
    obtain ⟨hvalid, rfl⟩ := encodePolicyName_ok_iff.1 hname
    obtain ⟨havailableLe, rfl⟩ := structuredInteger_ok_iff.1 havailable
    obtain ⟨hwindowLe, rfl⟩ := structuredInteger_ok_iff.1 hwindow
    refine ⟨⟨hvalid, havailableLe, hwindowLe⟩, ?_⟩
    rw [← seconds_of_le hwindowLe, ← text_eq_serializeItem]
    exact (Except.ok.inj h).symm
  · rintro ⟨⟨hvalid, havailable, hwindow⟩, rfl⟩
    rw [encodePolicyName_ok_iff.2 ⟨hvalid, rfl⟩, structuredInteger_ok_iff.2 ⟨havailable, rfl⟩,
      structuredInteger_ok_iff.2 ⟨hwindow, rfl⟩, ← seconds_of_le hwindow, ← text_eq_serializeItem]
    rfl

end Fields

end Draft11

open Draft11 in
/-- **Rate-limit fields are exact and cannot be injected into.** Where the `http` crate accepts visible
ASCII, neither function unwinds; each succeeds exactly on a valid name with numbers in range (and a
period of whole seconds), and then its value is visible ASCII that a reader of structured fields
takes for one member, with the name and the two numbers. -/
theorem rate_limit_fields_exact {accepts : List UInt8 → Bool}
    (haccepts : ∀ bytes : List UInt8, (∀ byte ∈ bytes, 0x20 ≤ byte ∧ byte ≤ 0x7e) → accepts bytes = true)
    (name : String) :
    (∀ {P : Type} [RateLimitPolicy P] (policy : P),
      ExactField (quotaPolicy accepts name policy) "ratelimit-policy" name
        [("q".toList, (RateLimitPolicy.quota policy).get),
          ("w".toList, (RateLimitPolicy.quotaPeriod policy).millis / 1000)]
        (ValidName name ∧ (RateLimitPolicy.quota policy).get ≤ 999999999999999 ∧
          1000 ∣ (RateLimitPolicy.quotaPeriod policy).millis ∧
          (RateLimitPolicy.quotaPeriod policy).millis / 1000 ≤ 999999999999999)) ∧
    (∀ allowance : Allowance,
      ExactField (serviceLimit accepts name (.available allowance)) "ratelimit" name
        [("r".toList, allowance.available), ("t".toList, ceilSeconds allowance.replenishesAfter)]
        (ValidName name ∧ allowance.available ≤ 999999999999999 ∧
          ceilSeconds allowance.replenishesAfter ≤ 999999999999999)) ∧
    (∀ denial : QuotaDenial,
      ExactField (serviceLimit accepts name (.exhausted denial)) "ratelimit" name
        [("r".toList, 0), ("t".toList, ceilSeconds denial.retryAfter)]
        (ValidName name ∧ 0 ≤ 999999999999999 ∧ ceilSeconds denial.retryAfter ≤ 999999999999999)) := by
  have hservice : ∀ state, ExactField (serviceLimit accepts name state) "ratelimit" name
      [(['r'], state.available?), (['t'], ceilSeconds state.delay)]
      (ValidName name ∧ state.available? ≤ 999999999999999 ∧ ceilSeconds state.delay ≤ 999999999999999) := by
    intro state
    refine exactField_of_text haccepts "ratelimit" ?_ (by simp) serviceLimitText_ok_iff ?_
    · simp only [List.forall_mem_cons, List.not_mem_nil, false_implies, implies_true, and_true]
      exact ⟨rfl, rfl⟩
    · rintro ⟨hvalid, havailable, hwindow⟩
      simp only [List.forall_mem_cons, List.not_mem_nil, false_implies, implies_true, and_true]
      exact ⟨hvalid, havailable, hwindow⟩
  refine ⟨?_, fun allowance => hservice (.available allowance), fun denial => hservice (.exhausted denial)⟩
  intro P _ policy
  refine exactField_of_text haccepts "ratelimit-policy" ?_ (by simp) quotaPolicyText_ok_iff ?_
  · simp only [List.forall_mem_cons, List.not_mem_nil, false_implies, implies_true, and_true]
    exact ⟨rfl, rfl⟩
  · rintro ⟨hvalid, hquota, -, hperiod⟩
    simp only [List.forall_mem_cons, List.not_mem_nil, false_implies, implies_true, and_true]
    exact ⟨hvalid, hquota, hperiod⟩

/-- What `HeaderValue` takes: anything but control characters, and the tab. -/
def headerValueAccepts (bytes : List UInt8) : Bool :=
  bytes.all fun byte => (decide (32 ≤ byte) && decide (byte ≠ 127)) || decide (byte = 9)

open Draft11 in
/-- A name that looks like parameters, a second member and the end of its own string. -/
theorem rate_limit_fields_exact_quoted :
    ∃ field, serviceLimit headerValueAccepts "a\";r=9, \\" (.exhausted ⟨⟨1, by decide, by decide⟩, ⟨⟨1, by decide⟩⟩⟩) =
        .ok (.ok field) ∧
      parseList field.value =
        some [.item ⟨.string "a\";r=9, \\".toList, [(['r'], .integer 0), (['t'], .integer 1)]⟩] := by
  have haccepts : ∀ bytes : List UInt8, (∀ byte ∈ bytes, 0x20 ≤ byte ∧ byte ≤ 0x7e) →
      headerValueAccepts bytes = true := by
    intro bytes h
    refine List.all_eq_true.2 ?_
    intro byte hbyte
    have hrange := h byte hbyte
    have hlast : byte ≠ 127 := by
      rintro rfl
      exact absurd hrange.2 (by decide)
    simp [hrange.1, hlast]
  have hvalid : ValidName "a\";r=9, \\" := ⟨by decide, by decide, by simp⟩
  have hexact := (rate_limit_fields_exact haccepts "a\";r=9, \\").2.2 ⟨⟨1, by decide, by decide⟩, ⟨⟨1, by decide⟩⟩⟩
  obtain ⟨field, hfield⟩ := hexact.ok_iff.2 ⟨hvalid, by decide, by decide⟩
  exact ⟨field, hfield, hexact.read field hfield⟩

end Runlimit
