import Mathlib

/-!
# Structured field lists

The parsing algorithms of RFC 9651 for a field that is a List, with every type of bare item, and
the serialisation of a String item with Integer parameters. Every function of the parser takes
the text and gives what it read and the text it left; an algorithm that loops over members or
parameters is given more turns than the text has characters. Main result:

* `parseList_serializeItem`: what is serialised is read back, whatever the string says.

The content of a byte sequence is kept as its base64 text, and that of a display string as its UTF-8.
-/

namespace StructuredField

/-! ## Values -/

inductive BareItem where
  | integer (value : ℤ)
  /-- A decimal, in thousandths. -/
  | decimal (thousandths : ℤ)
  | string (value : List Char)
  | token (value : List Char)
  | byteSequence (base64 : List Char)
  | boolean (value : Bool)
  | date (seconds : ℤ)
  | displayString (utf8 : List UInt8)
  deriving DecidableEq, Repr

abbrev Key := List Char

/-- Parameters, in order and with different keys. -/
abbrev Parameters := List (Key × BareItem)

structure Item where
  bareItem : BareItem
  parameters : Parameters
  deriving DecidableEq, Repr

inductive Member where
  | item (item : Item)
  | innerList (items : List Item) (parameters : Parameters)
  deriving DecidableEq, Repr

/-! ## Character classes -/

/-- `%x20-7E`. -/
def isPrintable (c : Char) : Bool := decide (' ' ≤ c ∧ c ≤ '~')

def isLowerAlpha (c : Char) : Bool := decide ('a' ≤ c ∧ c ≤ 'z')

def isKeyStart (c : Char) : Bool := isLowerAlpha c || c == '*'

def isKeyChar (c : Char) : Bool := isLowerAlpha c || c.isDigit || c == '_' || c == '-' || c == '.' || c == '*'

def isAsciiAlpha (c : Char) : Bool := isLowerAlpha c || decide ('A' ≤ c ∧ c ≤ 'Z')

/-- `tchar`, with the colon and the slash a token may also hold. -/
def isTokenChar (c : Char) : Bool := isAsciiAlpha c || c.isDigit || "!#$%&'*+-.^_|~:/".toList.contains c || c == '\x60'

def isBase64Char (c : Char) : Bool := isAsciiAlpha c || c.isDigit || c == '+' || c == '/' || c == '='

/-- The value of a lower-case hexadecimal digit. -/
def hexDigit (c : Char) : Option ℕ :=
  if c.isDigit then some (c.toNat - '0'.toNat)
  else if 'a' ≤ c ∧ c ≤ 'f' then some (c.toNat - 'a'.toNat + 10)
  else none

def discardSpaces (input : List Char) : List Char := input.dropWhile (· == ' ')

/-- Optional white space: spaces and tabs. -/
def discardOws (input : List Char) : List Char := input.dropWhile fun c => c == ' ' || c == '\t'

/-! ## Bare items -/

/-- Puts a character before what was read. -/
def push {α : Type} (a : α) : Option (List α × List Char) → Option (List α × List Char) :=
  Option.map fun p => (a :: p.1, p.2)

/-- A String, after its opening quote. -/
def parseStringBody : List Char → Option (List Char × List Char)
  | [] => none
  | c :: rest =>
    if c = '\\' then
      match rest with
      | [] => none
      | next :: rest => if next = '"' ∨ next = '\\' then push next (parseStringBody rest) else none
    else if c = '"' then some ([], rest)
    else if isPrintable c then push c (parseStringBody rest)
    else none

/-- A Display String, after its opening quote. -/
def parseDisplayBody : List Char → Option (List UInt8 × List Char)
  | [] => none
  | c :: rest =>
    if !isPrintable c then none
    else if c = '%' then
      match rest with
      | high :: low :: rest =>
        match hexDigit high, hexDigit low with
        | some high, some low => push (UInt8.ofNat (16 * high + low)) (parseDisplayBody rest)
        | _, _ => none
      | _ => none
    else if c = '"' then some ([], rest)
    else push (UInt8.ofNat c.toNat) (parseDisplayBody rest)

def signed (negative : Bool) (value : ℕ) : ℤ := if negative then -(value : ℤ) else value

/-- The value of some digits. -/
def digitsValue (digits : List Char) : ℕ := Nat.ofDigitChars 10 digits 0

/-- An Integer or a Decimal, after its sign: at most 15 digits, or at most 12 before the point and 3
after it. -/
def parseUnsigned (negative : Bool) (input : List Char) : Option (BareItem × List Char) :=
  let whole := input.takeWhile Char.isDigit
  let rest := input.dropWhile Char.isDigit
  if whole.isEmpty then none
  else match rest with
    | '.' :: rest =>
      let fraction := rest.takeWhile Char.isDigit
      if 12 < whole.length ∨ fraction.isEmpty ∨ 3 < fraction.length then none
      else some (.decimal (signed negative
        (digitsValue (whole ++ fraction ++ List.replicate (3 - fraction.length) '0'))), rest.dropWhile Char.isDigit)
    | _ => if 15 < whole.length then none else some (.integer (signed negative (digitsValue whole)), rest)

def parseNumber : List Char → Option (BareItem × List Char)
  | '-' :: rest => parseUnsigned true rest
  | input => parseUnsigned false input

def parseBareItem : List Char → Option (BareItem × List Char)
  | [] => none
  | c :: rest =>
    if c = '-' ∨ c.isDigit then parseNumber (c :: rest)
    else if c = '"' then (parseStringBody rest).map fun p => (.string p.1, p.2)
    else if isAsciiAlpha c ∨ c = '*' then
      some (.token (c :: rest.takeWhile isTokenChar), rest.dropWhile isTokenChar)
    else if c = ':' then
      match rest.dropWhile isBase64Char with
      | ':' :: left => some (.byteSequence (rest.takeWhile isBase64Char), left)
      | _ => none
    else if c = '?' then
      match rest with
      | '1' :: left => some (.boolean true, left)
      | '0' :: left => some (.boolean false, left)
      | _ => none
    else if c = '@' then
      match parseNumber rest with
      | some (.integer seconds, left) => some (.date seconds, left)
      | _ => none
    else if c = '%' then
      match rest with
      | '"' :: rest =>
        (parseDisplayBody rest).bind fun p =>
          if (ByteArray.mk p.1.toArray).validateUTF8 then some (.displayString p.1, p.2) else none
      | _ => none
    else none

/-! ## Parameters, items and lists -/

def parseKey : List Char → Option (Key × List Char)
  | [] => none
  | c :: rest =>
    if isKeyStart c then some (c :: rest.takeWhile isKeyChar, rest.dropWhile isKeyChar) else none

/-- A parameter that is there is overwritten in its place. -/
def setParameter (key : Key) (value : BareItem) (parameters : Parameters) : Parameters :=
  if parameters.any (·.1 == key) then parameters.map fun p => if p.1 = key then (key, value) else p
  else parameters ++ [(key, value)]

def parseParametersFrom : ℕ → Parameters → List Char → Option (Parameters × List Char)
  | 0, _, _ => none
  | fuel + 1, parameters, input =>
    match input with
    | ';' :: rest =>
      match parseKey (discardSpaces rest) with
      | none => none
      | some (key, '=' :: rest) =>
        match parseBareItem rest with
        | none => none
        | some (value, rest) => parseParametersFrom fuel (setParameter key value parameters) rest
      | some (key, rest) => parseParametersFrom fuel (setParameter key (.boolean true) parameters) rest
    | _ => some (parameters, input)

def parseParameters (input : List Char) : Option (Parameters × List Char) :=
  parseParametersFrom (input.length + 1) [] input

def parseItem (input : List Char) : Option (Item × List Char) := do
  let (bareItem, rest) ← parseBareItem input
  let (parameters, rest) ← parseParameters rest
  return (⟨bareItem, parameters⟩, rest)

/-- An Inner List, after its opening parenthesis. -/
def parseInnerFrom : ℕ → List Item → List Char → Option (Member × List Char)
  | 0, _, _ => none
  | fuel + 1, items, input =>
    match discardSpaces input with
    | ')' :: rest => (parseParameters rest).map fun p => (.innerList items p.1, p.2)
    | input =>
      match parseItem input with
      | some (item, ' ' :: rest) => parseInnerFrom fuel (items ++ [item]) (' ' :: rest)
      | some (item, ')' :: rest) => parseInnerFrom fuel (items ++ [item]) (')' :: rest)
      | _ => none

def parseMember : List Char → Option (Member × List Char)
  | '(' :: rest => parseInnerFrom (rest.length + 1) [] rest
  | input => (parseItem input).map fun p => (.item p.1, p.2)

/-- The members from here on. A list may be empty, but nothing may follow its last comma. -/
def parseMembersFrom : ℕ → List Char → Option (List Member)
  | 0, _ => none
  | fuel + 1, input =>
    match parseMember input with
    | none => none
    | some (member, rest) =>
      match discardOws rest with
      | [] => some [member]
      | ',' :: rest => (parseMembersFrom fuel (discardOws rest)).map (member :: ·)
      | _ => none

/-- A field value that is a List; `none` unless all of it is read. -/
def parseList (value : List UInt8) : Option (List Member) :=
  if value.all (· < 128) then
    let input := discardSpaces (value.map fun byte => Char.ofNat byte.toNat)
    -- trailing spaces may stand after the last member: `parseMembersFrom` has discarded them
    if input.isEmpty then some [] else parseMembersFrom (input.length + 1) input
  else none

/-! ## Serialisation -/

/-- A character of a String: quotes and backslashes are escaped. -/
def escape (c : Char) : List Char := if c = '"' ∨ c = '\\' then ['\\', c] else [c]

def serializeString (value : List Char) : List Char := '"' :: (value.flatMap escape ++ ['"'])

/-- Parameters with Integers that are not negative. -/
def serializeParameters (parameters : List (Key × ℕ)) : List Char :=
  parameters.flatMap fun p => ';' :: (p.1 ++ '=' :: Nat.toDigits 10 p.2)

def serializeItem (value : List Char) (parameters : List (Key × ℕ)) : List Char :=
  serializeString value ++ serializeParameters parameters

/-- Text the algorithms take, byte by byte. -/
def asciiBytes (text : List Char) : List UInt8 := text.map fun c => UInt8.ofNat c.toNat

def isKey : Key → Bool
  | [] => false
  | c :: rest => isKeyStart c && rest.all isKeyChar

/-! ## Reading back -/

/-- The printable characters are those of one ASCII byte, without the controls. -/
theorem isPrintable_toNat {c : Char} (h : isPrintable c = true) : 32 ≤ c.toNat ∧ c.toNat ≤ 126 := by
  unfold isPrintable at h
  rw [decide_eq_true_eq] at h
  exact h

/-- A quote ends a String. -/
theorem parseStringBody_quote (rest : List Char) : parseStringBody ('"' :: rest) = some ([], rest) := by
  rw [parseStringBody.eq_def]
  simp

/-- A backslash and what it escapes are one character. -/
theorem parseStringBody_escaped {c : Char} (h : c = '"' ∨ c = '\\') (rest : List Char) :
    parseStringBody ('\\' :: c :: rest) = push c (parseStringBody rest) := by
  rw [parseStringBody.eq_def]
  simp [h]

/-- Any other printable character stands for itself. -/
theorem parseStringBody_plain {c : Char} (hquote : c ≠ '"') (hbackslash : c ≠ '\\') (h : isPrintable c = true)
    (rest : List Char) : parseStringBody (c :: rest) = push c (parseStringBody rest) := by
  rw [parseStringBody.eq_def]
  simp [hquote, hbackslash, h]

/-- Whatever a string says, its quoted form ends where it ends. -/
theorem parseStringBody_escape {value : List Char} (h : ∀ c ∈ value, isPrintable c = true) (rest : List Char) :
    parseStringBody (value.flatMap escape ++ '"' :: rest) = some (value, rest) := by
  induction value with
  | nil => exact parseStringBody_quote rest
  | cons c value ih =>
    rw [List.forall_mem_cons] at h
    have hrest := ih h.2
    have hread : parseStringBody (escape c ++ (value.flatMap escape ++ '"' :: rest)) =
        push c (parseStringBody (value.flatMap escape ++ '"' :: rest)) := by
      unfold escape
      -- an escaped character is read in one step, as a plain one is
      by_cases hescaped : c = '"' ∨ c = '\\'
      · rw [if_pos hescaped]
        exact parseStringBody_escaped hescaped _
      · rw [if_neg hescaped]
        rw [not_or] at hescaped
        exact parseStringBody_plain hescaped.1 hescaped.2 h.1 _
    rw [List.flatMap_cons, List.append_assoc, hread, hrest]
    rfl

/-- **A String** is read back, up to its closing quote. -/
theorem parseBareItem_string {value : List Char} (h : ∀ c ∈ value, isPrintable c = true) (rest : List Char) :
    parseBareItem (serializeString value ++ rest) = some (.string value, rest) := by
  have hbody : value.flatMap escape ++ ['"'] ++ rest = value.flatMap escape ++ '"' :: rest := by
    rw [List.append_assoc]
    rfl
  unfold serializeString
  rw [List.cons_append, hbody, parseBareItem.eq_def]
  simp only
  rw [if_neg (by decide), if_true, parseStringBody_escape h]
  rfl

/-- What may follow an Integer, for it to end there. -/
def EndsNumber (rest : List Char) : Prop := rest.takeWhile Char.isDigit = [] ∧ ∀ tail, rest ≠ '.' :: tail

/-- A number is written in digits. -/
theorem isDigit_of_mem_toDigits {n : ℕ} {c : Char} (h : c ∈ Nat.toDigits 10 n) : c.isDigit = true :=
  Nat.isDigit_of_mem_toDigits (by decide) (by decide) h

/-- Where nothing is taken, nothing is dropped. -/
theorem dropWhile_of_takeWhile_nil {p : Char → Bool} {l : List Char} (h : l.takeWhile p = []) :
    l.dropWhile p = l := by
  have happend := List.takeWhile_append_dropWhile (p := p) (l := l)
  rw [h, List.nil_append] at happend
  exact happend

/-- The digits of an Integer are read up to the first character that is no digit, and its value is the number. -/
theorem parseUnsigned_toDigits {n : ℕ} (h : n < 10 ^ 15) {rest : List Char} (hrest : EndsNumber rest) :
    parseUnsigned false (Nat.toDigits 10 n ++ rest) = some (.integer n, rest) := by
  have hdigits : ∀ c ∈ Nat.toDigits 10 n, c.isDigit = true := fun c hc => isDigit_of_mem_toDigits hc
  have hlength : (Nat.toDigits 10 n).length ≤ 15 := (Nat.length_toDigits_le_iff (by decide) (by decide)).2 h
  have hvalue : digitsValue (Nat.toDigits 10 n) = n := Nat.ofDigitChars_ten_toDigits
  have htake : (Nat.toDigits 10 n ++ rest).takeWhile Char.isDigit = Nat.toDigits 10 n := by
    rw [List.takeWhile_append_of_pos hdigits, hrest.1, List.append_nil]
  have hdrop : (Nat.toDigits 10 n ++ rest).dropWhile Char.isDigit = rest := by
    rw [List.dropWhile_append_of_pos hdigits, dropWhile_of_takeWhile_nil hrest.1]
  unfold parseUnsigned
  simp only [htake, hdrop]
  rw [if_neg (by simp [Nat.toDigits_ne_nil])]
  split
  · -- no point follows, so it is no Decimal
    rename_i tail
    exact absurd rfl (hrest.2 tail)
  · rw [if_neg (by omega), hvalue]
    rfl

/-- **An Integer** of at most 15 digits is read back. -/
theorem parseBareItem_toDigits {n : ℕ} (h : n < 10 ^ 15) {rest : List Char} (hrest : EndsNumber rest) :
    parseBareItem (Nat.toDigits 10 n ++ rest) = some (.integer n, rest) := by
  have hread := parseUnsigned_toDigits h hrest
  cases hdigits : Nat.toDigits 10 n with
  | nil => exact absurd hdigits Nat.toDigits_ne_nil
  | cons c digits =>
    have hc : c.isDigit = true := isDigit_of_mem_toDigits (n := n) (by rw [hdigits]; exact List.mem_cons_self)
    -- a number without a sign starts with a digit
    have hminus : c ≠ '-' := by
      rintro rfl
      exact absurd hc (by decide)
    rw [hdigits, List.cons_append] at hread
    rw [List.cons_append, parseBareItem.eq_def]
    simp only
    rw [if_pos (Or.inr hc)]
    unfold parseNumber
    split
    · rename_i heq
      exact absurd (List.cons.inj heq).1 hminus
    · exact hread

/-- A key ends at the equals sign. -/
theorem parseKey_append {key : Key} (h : isKey key = true) (rest : List Char) :
    parseKey (key ++ '=' :: rest) = some (key, '=' :: rest) := by
  cases key with
  | nil => cases h
  | cons c tail =>
    unfold isKey at h
    rw [Bool.and_eq_true, List.all_eq_true] at h
    have hequals : isKeyChar '=' = false := by decide
    rw [List.cons_append, parseKey, if_pos h.1, List.takeWhile_append_of_pos h.2,
      List.dropWhile_append_of_pos h.2, List.takeWhile_cons, List.dropWhile_cons, if_neg (by simp [hequals]),
      if_neg (by simp [hequals]), List.append_nil]

/-- A key starts with no space. -/
theorem discardSpaces_key {key : Key} (h : isKey key = true) (rest : List Char) :
    discardSpaces (key ++ rest) = key ++ rest := by
  cases key with
  | nil => cases h
  | cons c tail =>
    unfold isKey at h
    rw [Bool.and_eq_true] at h
    have hspace : c ≠ ' ' := by
      rintro rfl
      exact absurd h.1 (by decide)
    rw [List.cons_append, discardSpaces, List.dropWhile_cons, if_neg (by simpa using hspace)]

/-- A new parameter comes last. -/
theorem setParameter_new {key : Key} {parameters : Parameters} (h : key ∉ parameters.map Prod.fst) (value : BareItem) :
    setParameter key value parameters = parameters ++ [(key, value)] := by
  have hany : parameters.any (·.1 == key) = false := by
    rw [List.any_eq_false]
    intro p hp heq
    exact h (List.mem_map.2 ⟨p, hp, by simpa using heq⟩)
  unfold setParameter
  rw [if_neg (by simp [hany])]

/-- After an Integer the parameters start with a semicolon, or the text ends. -/
theorem endsNumber_serializeParameters (parameters : List (Key × ℕ)) :
    EndsNumber (serializeParameters parameters) := by
  cases parameters with
  | nil => exact ⟨rfl, fun tail heq => by cases heq⟩
  | cons p parameters =>
    refine ⟨rfl, ?_⟩
    intro tail heq
    exact absurd (List.cons.inj heq).1 (by decide)

/-- The value of an Integer parameter. -/
def integerParameter (p : Key × ℕ) : Key × BareItem := (p.1, .integer p.2)

/-- The loop reads one parameter a turn, and each has a key of its own. -/
theorem parseParametersFrom_serialize {parameters : List (Key × ℕ)} : ∀ {fuel : ℕ} {seen : Parameters},
    parameters.length < fuel → (∀ p ∈ parameters, isKey p.1 = true ∧ p.2 < 10 ^ 15) →
    (seen.map Prod.fst ++ parameters.map Prod.fst).Nodup →
    parseParametersFrom fuel seen (serializeParameters parameters) =
      some (seen ++ parameters.map integerParameter, []) := by
  induction parameters with
  | nil =>
    intro fuel seen hfuel _ _
    obtain ⟨fuel, rfl⟩ : ∃ k, fuel = k + 1 := ⟨fuel - 1, by simp at hfuel; omega⟩
    rw [List.map_nil, List.append_nil]
    rfl
  | cons p parameters ih =>
    intro fuel seen hfuel hall hnodup
    obtain ⟨fuel, rfl⟩ : ∃ k, fuel = k + 1 := ⟨fuel - 1, by simp at hfuel; omega⟩
    rw [List.forall_mem_cons] at hall
    obtain ⟨⟨hkey, hvalue⟩, hall⟩ := hall
    have htext : serializeParameters (p :: parameters) =
        ';' :: (p.1 ++ '=' :: (Nat.toDigits 10 p.2 ++ serializeParameters parameters)) := by
      unfold serializeParameters
      rw [List.flatMap_cons, List.cons_append, List.append_assoc, List.cons_append]
    -- no earlier parameter is overwritten
    have hnew : p.1 ∉ seen.map Prod.fst := by
      intro hmem
      rw [List.nodup_append] at hnodup
      exact hnodup.2.2 _ hmem _ (List.mem_map_of_mem List.mem_cons_self) rfl
    have hnext : ((seen ++ [integerParameter p]).map Prod.fst ++ parameters.map Prod.fst).Nodup := by
      rw [List.map_append, List.append_assoc]
      exact hnodup
    have hrest := @ih fuel _ (by simp at hfuel; omega) hall hnext
    rw [htext, parseParametersFrom]
    rw [discardSpaces_key hkey, parseKey_append hkey]
    simp only
    rw [parseBareItem_toDigits hvalue (endsNumber_serializeParameters parameters)]
    simp only
    rw [setParameter_new hnew]
    refine hrest.trans ?_
    rw [List.append_assoc]
    rfl

/-- Every parameter is some text, so that the turns suffice. -/
theorem length_le_serializeParameters (parameters : List (Key × ℕ)) :
    parameters.length ≤ (serializeParameters parameters).length := by
  induction parameters with
  | nil => exact Nat.zero_le _
  | cons p parameters ih =>
    unfold serializeParameters at ih ⊢
    rw [List.flatMap_cons, List.length_append, List.length_cons, List.length_cons]
    omega

section Item

variable {value : List Char} {parameters : List (Key × ℕ)} (hvalue : ∀ c ∈ value, isPrintable c = true)
  (hall : ∀ p ∈ parameters, isKey p.1 = true ∧ p.2 < 10 ^ 15) (hnodup : (parameters.map Prod.fst).Nodup)

include hvalue hall hnodup

/-- **An Item** with its parameters is read back as one member. -/
theorem parseMember_serializeItem :
    parseMember (serializeItem value parameters) =
      some (.item ⟨.string value, parameters.map integerParameter⟩, []) := by
  have hlength := length_le_serializeParameters parameters
  have hparameters : parseParameters (serializeParameters parameters) =
      some (parameters.map integerParameter, []) :=
    @parseParametersFrom_serialize parameters _ [] (by omega) hall hnodup
  have hitem : parseItem (serializeItem value parameters) =
      some (⟨.string value, parameters.map integerParameter⟩, []) := by
    unfold parseItem serializeItem
    rw [parseBareItem_string hvalue]
    change (parseParameters (serializeParameters parameters) >>= fun p =>
      some ((⟨.string value, p.1⟩ : Item), p.2)) = _
    rw [hparameters]
    rfl
  unfold parseMember
  split
  · -- the text starts with a quote, not with a parenthesis
    rename_i heq
    exact absurd (List.cons.inj heq).1 (by decide)
  · rw [hitem]
    rfl

/-- **What is serialised is read back, and nothing else with it.** -/
theorem parseList_serializeItem (hprintable : ∀ c ∈ serializeItem value parameters, isPrintable c = true) :
    parseList (asciiBytes (serializeItem value parameters)) =
      some [.item ⟨.string value, parameters.map integerParameter⟩] := by
  have hbyte : ∀ c ∈ serializeItem value parameters, (UInt8.ofNat c.toNat).toNat = c.toNat := by
    intro c hc
    have hrange := isPrintable_toNat (hprintable c hc)
    rw [UInt8.toNat_ofNat']
    exact Nat.mod_eq_of_lt (by omega)
  have hascii : (asciiBytes (serializeItem value parameters)).all (· < 128) = true := by
    rw [List.all_eq_true]
    intro byte hbyte'
    obtain ⟨c, hc, rfl⟩ := List.mem_map.1 hbyte'
    have hrange := isPrintable_toNat (hprintable c hc)
    rw [decide_eq_true_eq, UInt8.lt_iff_toNat_lt, hbyte c hc]
    change c.toNat < 128
    omega
  -- the bytes are the characters again
  have hchars : (asciiBytes (serializeItem value parameters)).map (fun byte => Char.ofNat byte.toNat) =
      serializeItem value parameters := by
    unfold asciiBytes
    rw [List.map_map]
    conv_rhs => rw [← List.map_id (serializeItem value parameters)]
    refine List.map_congr_left ?_
    intro c hc
    change Char.ofNat (UInt8.ofNat c.toNat).toNat = c
    rw [hbyte c hc, Char.ofNat_toNat]
  have hspaces : discardSpaces (serializeItem value parameters) = serializeItem value parameters := rfl
  unfold parseList
  rw [if_pos hascii]
  simp only [hchars, hspaces]
  -- the text ends with the item: no comma follows
  rw [if_neg (by simp [serializeItem, serializeString]), parseMembersFrom,
    parseMember_serializeItem hvalue hall hnodup]
  rfl

end Item

end StructuredField
