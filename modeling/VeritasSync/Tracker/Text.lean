import VeritasSync.Common.Path
import VeritasSync.Lib.Percent

/-!
# The text of tracker messages

The tracker and its clients exchange lines of fields with tabs between them.  In a field every byte
that is not a letter, a digit or one of `-_.~` is written as `%` and two digits.

The escaping is written twice in the sources, in Rust for the tracker (`encode_field`,
`decode_field`) and in C++ for the client (`EncodeField`, `DecodeField`).  The encoders are the same
function; the decoders differ in what they throw and in that the tracker wants the result to be
UTF-8.  Both are `unescape` here, with the difference added where each is used.

The codec is used in two ways.  As a reader of what the own encoder wrote it must be exact, which is
a round trip; as a reader of what a stranger wrote it must not crash and must not read two different
things, and for that it is enough that it is a function that says what it refuses.
-/

set_option autoImplicit false

namespace VeritasSync

namespace Tracker

/-! ## Escaping -/

/-- The byte that starts an escape. -/
def percent : UInt8 := '%'.toUInt8

/-- The separator of fields. -/
def tab : UInt8 := '\t'.toUInt8

/-- The end of a line. -/
def newline : UInt8 := '\n'.toUInt8

/-- A byte that is not escaped. -/
def isPlain (c : UInt8) : Bool :=
  ('a'.toUInt8 ≤ c && c ≤ 'z'.toUInt8) || ('A'.toUInt8 ≤ c && c ≤ 'Z'.toUInt8) ||
    ('0'.toUInt8 ≤ c && c ≤ '9'.toUInt8) || c = '-'.toUInt8 || c = '_'.toUInt8 ||
    c = '.'.toUInt8 || c = '~'.toUInt8

/-- A digit of `HEX`. -/
def hexDigit (n : Nat) : UInt8 := if n < 10 then UInt8.ofNat (48 + n) else UInt8.ofNat (55 + n)

/-- `encode_field` and `EncodeField`. -/
def encodeField : Bytes → Bytes
  | [] => []
  | c :: rest =>
    if isPlain c then c :: encodeField rest
    else percent :: hexDigit (c.toNat / 16) :: hexDigit (c.toNat % 16) :: encodeField rest

/-- `digit`. -/
def digit (c : UInt8) : Option Nat :=
  if '0'.toUInt8 ≤ c ∧ c ≤ '9'.toUInt8 then some (c.toNat - 48)
  else if 'a'.toUInt8 ≤ c ∧ c ≤ 'f'.toUInt8 then some (c.toNat - 87)
  else if 'A'.toUInt8 ≤ c ∧ c ≤ 'F'.toUInt8 then some (c.toNat - 55)
  else none

/-- The loop of `decode_field` and `DecodeField`; `none` is a malformed escape. -/
def unescape : Bytes → Option Bytes
  | [] => some []
  | c :: rest =>
    if c ≠ percent then (unescape rest).map (c :: ·)
    else
      match rest with
      | high :: low :: rest => do
        let high ← digit high
        let low ← digit low
        (unescape rest).map (UInt8.ofNat (16 * high + low) :: ·)
      | _ => none

theorem isPlain_percent : isPlain percent = false := by decide

/-- The encoder is that of the library. -/
theorem encodeField_eq_encode : encodeField = Percent.encode isPlain := by
  funext text
  induction text with
  | nil => rfl
  | cons c rest ih =>
    rw [encodeField, Percent.encode_cons, Percent.unit, ih]
    split <;> rfl

/-- And so is the decoder. -/
theorem unescape_eq_decode (text : Bytes) : unescape text = Percent.decode text := by
  fun_induction Percent.decode text with
  | case1 => rfl
  | case2 c rest hne ih =>
    rw [unescape.eq_def, ← ih]
    exact if_pos hne
  | case3 c hpercent high low rest ih =>
    obtain rfl := not_not.mp hpercent
    rw [← ih]
    exact if_neg (not_not.mpr rfl)
  | case4 c rest hpercent hshort =>
    obtain rfl := not_not.mp hpercent
    rcases rest with _ | ⟨high, _ | ⟨low, rest⟩⟩
    · rfl
    · rfl
    · exact absurd rfl (hshort high low rest)

/-- **The decoder inverts the encoder.** -/
theorem unescape_encodeField (text : Bytes) : unescape (encodeField text) = some text := by
  rw [unescape_eq_decode, encodeField_eq_encode, Percent.decode_encode isPlain_percent]

/-- The number of bytes that `encodeField` writes. -/
def encodedLength (text : Bytes) : Nat := (text.map fun c => if isPlain c then 1 else 3).sum

theorem length_encodeField (text : Bytes) : (encodeField text).length = encodedLength text := by
  induction text with
  | nil => rfl
  | cons c rest ih =>
    rw [encodeField, encodedLength, List.map_cons, List.sum_cons]
    split
    · rw [List.length_cons, ih, encodedLength]
      omega
    · rw [List.length_cons, List.length_cons, List.length_cons, ih, encodedLength]
      omega

/-- A field holds no separator. -/
theorem plain_of_mem_encodeField {text : Bytes} {c : UInt8} (h : c ∈ encodeField text) :
    isPlain c = true ∨ c = percent := by
  have hhex : ∀ n < 16, isPlain (Percent.hexDigit n) = true := by decide
  rw [encodeField_eq_encode] at h
  rcases Percent.keep_or_escape_of_mem h with h | rfl | ⟨n, hn, rfl⟩
  · exact .inl h
  · exact .inr rfl
  · exact .inl (hhex n hn)

/-! ## UTF-8 -/

/-- A continuation byte. -/
def isContinuation (c : UInt8) : Bool := 0x80 ≤ c && c ≤ 0xBF

/-- `std::str::from_utf8` and `String::from_utf8`, as checks. -/
def validUtf8 : Bytes → Bool
  | [] => true
  | a :: rest =>
    if a < 0x80 then validUtf8 rest
    else
      match rest with
      | [] => false
      | b :: rest =>
        if 0xC2 ≤ a ∧ a ≤ 0xDF then isContinuation b && validUtf8 rest
        else
          match rest with
          | [] => false
          | c :: rest =>
            if 0xE0 ≤ a ∧ a ≤ 0xEF then
              isContinuation b && (a ≠ 0xE0 || 0xA0 ≤ b) && (a ≠ 0xED || b ≤ 0x9F) &&
                isContinuation c && validUtf8 rest
            else
              match rest with
              | [] => false
              | d :: rest =>
                0xF0 ≤ a && a ≤ 0xF4 && isContinuation b && (a ≠ 0xF0 || 0x90 ≤ b) &&
                  (a ≠ 0xF4 || b ≤ 0x8F) && isContinuation c && isContinuation d && validUtf8 rest

theorem validUtf8_of_ascii {text : Bytes} (h : ∀ c ∈ text, c < 0x80) : validUtf8 text = true := by
  induction text with
  | nil => rfl
  | cons c rest ih =>
    unfold validUtf8
    rw [if_pos (h c List.mem_cons_self)]
    exact ih fun x hx => h x (List.mem_cons_of_mem _ hx)

/-! ## Numbers -/

/-- The value of a text of decimal digits, appended to the digits already read. -/
def parseDigits (value : Nat) : Bytes → Option Nat
  | [] => some value
  | c :: rest =>
    if '0'.toUInt8 ≤ c ∧ c ≤ '9'.toUInt8 then
      parseDigits (10 * value + (c.toNat - 48)) rest
    else none

/-- At least one digit, and nothing else. -/
def parseNat (text : Bytes) : Option Nat := if text = [] then none else parseDigits 0 text

/-- The number is a signed integer of the given width. -/
def inRange (width : Nat) (i : Int) : Bool := -2 ^ (width - 1) ≤ i && i < 2 ^ (width - 1)

/-- A sign and digits. -/
def parseSigned (plus : Bool) (width : Nat) (text : Bytes) : Option Int :=
  (match text with
  | c :: rest =>
    if c = '-'.toUInt8 then (parseNat rest).map fun n => -(n : Int)
    else if plus ∧ c = '+'.toUInt8 then (parseNat rest).map Int.ofNat
    else (parseNat text).map Int.ofNat
  | [] => none).filter (inRange width)

/-- `str::parse` of a signed integer type, which takes a plus sign. -/
def parseInt (width : Nat) (text : Bytes) : Option Int := parseSigned true width text

/-- `std::from_chars` of `int64_t` over the whole text, which does not. -/
def fromChars (text : Bytes) : Option Int := parseSigned false 64 text

/-- The text of a signed integer, in Rust and in C++. -/
def printInt : Int → Bytes
  | .ofNat n => decimal n
  | .negSucc n => '-'.toUInt8 :: decimal (n + 1)

theorem parseDigits_append (value : Nat) (l l' : Bytes) :
    parseDigits value (l ++ l') = (parseDigits value l).bind fun v => parseDigits v l' := by
  induction l generalizing value with
  | nil => rfl
  | cons c rest ih =>
    rw [List.cons_append, parseDigits, parseDigits]
    split
    · exact ih _
    · rfl

/-- The last digit comes off the end. -/
theorem decimal_eq (n : Nat) :
    decimal n = (if n < 10 then [] else decimal (n / 10)) ++ [UInt8.ofNat (48 + n % 10)] := by
  have hchar : ∀ d < 10, (Nat.digitChar d).toNat.toUInt8 = UInt8.ofNat (48 + d) := by decide
  rw [decimal, Nat.toDigits_eq_if (by omega)]
  split
  · rename_i h
    rw [List.map_singleton, hchar n h, Nat.mod_eq_of_lt h, List.nil_append]
  · rw [List.map_append, List.map_singleton, hchar _ (Nat.mod_lt n (by omega)), decimal]

theorem decimal_ne_nil (n : Nat) : decimal n ≠ [] := by
  rw [decimal_eq]
  simp

theorem parseDigits_decimal (n : Nat) : parseDigits 0 (decimal n) = some n := by
  have hdigit : ∀ v, ∀ d < 10, parseDigits v [UInt8.ofNat (48 + d)] = some (10 * v + d) := by
    intro v d hd
    have hbounds : ∀ d < 10, ('0'.toUInt8 ≤ UInt8.ofNat (48 + d) ∧
        UInt8.ofNat (48 + d) ≤ '9'.toUInt8) ∧ (UInt8.ofNat (48 + d)).toNat - 48 = d := by decide
    rw [parseDigits, if_pos (hbounds d hd).1, (hbounds d hd).2, parseDigits]
  induction n using Nat.strongRecOn with
  | ind n ih =>
    rw [decimal_eq, parseDigits_append]
    split
    · rename_i h
      rw [parseDigits, Option.bind_some, hdigit _ _ (Nat.mod_lt n (by omega))]
      congr 1
      omega
    · rw [ih (n / 10) (by omega), Option.bind_some, hdigit _ _ (Nat.mod_lt n (by omega))]
      congr 1
      omega

theorem parseNat_decimal (n : Nat) : parseNat (decimal n) = some n := by
  rw [parseNat, if_neg (decimal_ne_nil n), parseDigits_decimal]

theorem digit_of_mem_decimal {n : Nat} {c : UInt8} (h : c ∈ decimal n) :
    '0'.toUInt8 ≤ c ∧ c ≤ '9'.toUInt8 := by
  have hbounds : ∀ d < 10, '0'.toUInt8 ≤ UInt8.ofNat (48 + d) ∧
      UInt8.ofNat (48 + d) ≤ '9'.toUInt8 := by decide
  induction n using Nat.strongRecOn with
  | ind n ih =>
    rw [decimal_eq] at h
    rcases List.mem_append.mp h with h | h
    · split at h
      · cases h
      · exact ih (n / 10) (by omega) h
    · rw [List.mem_singleton.mp h]
      exact hbounds _ (Nat.mod_lt n (by omega))

/-- **A number that is printed is read back**, on both sides.  The smallest number is the delicate
one, since its absolute value does not fit. -/
theorem parseSigned_printInt (plus : Bool) {width : Nat} {i : Int} (h : inRange width i = true) :
    parseSigned plus width (printInt i) = some i := by
  cases i with
  | ofNat n =>
    obtain ⟨c, rest, hcons⟩ := List.exists_cons_of_ne_nil (decimal_ne_nil n)
    have hdigit := digit_of_mem_decimal (n := n) (hcons ▸ List.mem_cons_self)
    have hminus : c ≠ '-'.toUInt8 := fun heq => absurd (heq ▸ hdigit.1) (by decide)
    have hplus : c ≠ '+'.toUInt8 := fun heq => absurd (heq ▸ hdigit.1) (by decide)
    have hparse := parseNat_decimal n
    rw [hcons] at hparse
    simp only [parseSigned, printInt, hcons, if_neg hminus, hplus, and_false, if_false, hparse,
      Option.map_some]
    exact Option.filter_some_pos h
  | negSucc n =>
    simp only [parseSigned, printInt, if_true, parseNat_decimal, Option.map_some]
    exact Option.filter_some_pos h

theorem inRange_of_parseInt {width : Nat} {text : Bytes} {i : Int}
    (h : parseInt width text = some i) : inRange width i = true := by
  rw [parseInt, parseSigned.eq_def] at h
  exact (Option.filter_eq_some_iff.mp h).2

theorem printInt_ascii {i : Int} {c : UInt8} (h : c ∈ printInt i) :
    c = '-'.toUInt8 ∨ ('0'.toUInt8 ≤ c ∧ c ≤ '9'.toUInt8) := by
  cases i with
  | ofNat n => exact .inr (digit_of_mem_decimal h)
  | negSucc n =>
    rcases List.mem_cons.mp h with h | h
    · exact .inl h
    · exact .inr (digit_of_mem_decimal h)

/-! ## Fields on the wire -/

/-- The bytes of a field on the wire, with the text they stand for. -/
structure Field where
  raw : Bytes
  text : Bytes
  plain : ∀ c ∈ raw, isPlain c = true ∨ c = percent
  unescape : unescape raw = some text

namespace Field

/-- A text that is escaped. -/
def escaped (text : Bytes) : Field :=
  ⟨encodeField text, text, fun _ h => plain_of_mem_encodeField h, unescape_encodeField text⟩

theorem unescape_of_plain {text : Bytes} (h : ∀ c ∈ text, isPlain c = true) :
    Tracker.unescape text = some text := by
  induction text with
  | nil => rfl
  | cons c rest ih =>
    have hne : c ≠ percent := by
      rintro rfl
      exact absurd (h percent List.mem_cons_self) (by decide)
    unfold Tracker.unescape
    rw [if_pos hne, ih fun x hx => h x (List.mem_cons_of_mem _ hx)]
    rfl

/-- A text that is written as it is: no byte of it needs an escape. -/
def word (text : Bytes) (h : ∀ c ∈ text, isPlain c = true) : Field :=
  ⟨text, text, fun c hc => .inl (h c hc), unescape_of_plain h⟩

theorem isPlain_of_mem_printInt {i : Int} {c : UInt8} (h : c ∈ printInt i) : isPlain c = true := by
  rcases printInt_ascii h with rfl | hdigit
  · decide
  · simp [isPlain, hdigit.1, hdigit.2]

/-- A number. -/
def number (i : Int) : Field := word (printInt i) fun _ h => isPlain_of_mem_printInt h

/-- A field has no byte that is neither plain nor a percent sign. -/
theorem not_mem (field : Field) {c : UInt8} (hplain : isPlain c = false) (hpercent : c ≠ percent) :
    c ∉ field.raw := fun hmem => by
  rcases field.plain c hmem with h | h
  · rw [hplain] at h
    cases h
  · exact hpercent h

/-- A field is ASCII. -/
theorem lt_of_mem (field : Field) {c : UInt8} (hc : c ∈ field.raw) : c < 0x80 := by
  have hplain : ∀ n < 256, isPlain (UInt8.ofNat n) = true → UInt8.ofNat n < 0x80 := by
    decide +kernel
  rcases field.plain c hc with h | rfl
  · have hbyte := hplain c.toNat c.toNat_lt
    rw [UInt8.ofNat_toNat] at hbyte
    exact hbyte h
  · decide

end Field

/-- Fields with tabs between them. -/
def joinFields (fields : List Field) : Bytes := [tab].intercalate (fields.map Field.raw)

theorem splitOn_joinFields {fields : List Field} (hne : fields ≠ []) :
    (joinFields fields).splitOn tab = fields.map Field.raw := by
  refine List.splitOn_intercalate tab (fun raw hraw => ?_) (by simpa using hne)
  obtain ⟨field, -, rfl⟩ := List.mem_map.mp hraw
  exact field.not_mem (by decide) (by decide)

theorem joinFields_cons_cons (a b : Field) (rest : List Field) :
    joinFields (a :: b :: rest) = a.raw ++ [tab] ++ joinFields (b :: rest) := by
  rw [joinFields, List.map_cons, List.map_cons, List.intercalate_cons_cons]
  rfl

theorem joinFields_singleton (a : Field) : joinFields [a] = a.raw := List.intercalate_singleton

/-- A byte of a line of fields is a tab or a byte of a field. -/
theorem mem_joinFields {fields : List Field} {c : UInt8} (h : c ∈ joinFields fields) :
    c = tab ∨ ∃ field ∈ fields, c ∈ field.raw := by
  induction fields with
  | nil => cases h
  | cons a rest ih =>
    cases rest with
    | nil =>
      rw [joinFields_singleton] at h
      exact .inr ⟨a, List.mem_cons_self, h⟩
    | cons b rest =>
      rw [joinFields_cons_cons, List.mem_append, List.mem_append, List.mem_singleton] at h
      rcases h with (h | h) | h
      · exact .inr ⟨a, List.mem_cons_self, h⟩
      · exact .inl h
      · rcases ih h with h | ⟨field, hfield, hc⟩
        · exact .inl h
        · exact .inr ⟨field, List.mem_cons_of_mem _ hfield, hc⟩

end Tracker

end VeritasSync
