import VeritasSync.Lib.Percent
import VeritasSync.Tracker.Contract

/-!
# The two implementations of the field codec

The client and the tracker each have an encoder, a decoder and a splitter of their own, in C++ and
in Rust.  Here they are as they are written, with their tables of digits, their shifts and their
loops.  The encoders turn out to be one function and so do the decoders, up to what they throw and
up to the tracker's demand for UTF-8; these are the functions that the rest of the development uses.

Two programs that have to agree on a format, and no code in common: what can go wrong is that one
escapes a byte that the other takes for a separator, reads digits that the other does not write, or
splits where the other does not join.  Written out, the four loops are short enough to be compared
with the one specification, and then nothing has to be proved about pairs of them.

## What is here

* `TrackerClient` — `EncodeField`, `DecodeField` and `Fields`.
* `TrackerServer` — `encode_field`, `decode_field` and `fields`.
* `TrackerClient.encodeField_eq`, `TrackerServer.encodeField_eq` — **both encoders are the one of
  `Percent`**, and `decodeField_encode` of either side reads what it wrote.
* `TrackerServer.decodeField_eq`, `TrackerServer.fields_eq` — the functions of the server model.
* `TrackerClient.fields_join`, `TrackerServer.fields_join` — what either splitter finds in a line of
  encoded fields.
-/

set_option autoImplicit false

namespace VeritasSync

open Tracker

/-! ## The client

In C++: a string that grows, a shift for the high digit, a mask for the low one. -/

namespace TrackerClient

/-- `kHex`. -/
def kHex : Bytes := ascii "0123456789ABCDEF"

/-- What `EncodeField` appends for one character. -/
def encodeCharacter (character : UInt8) : Bytes :=
  if ('a'.toUInt8 ≤ character ∧ character ≤ 'z'.toUInt8) ∨
      ('A'.toUInt8 ≤ character ∧ character ≤ 'Z'.toUInt8) ∨
      ('0'.toUInt8 ≤ character ∧ character ≤ '9'.toUInt8) ∨ character = '-'.toUInt8 ∨
      character = '_'.toUInt8 ∨ character = '.'.toUInt8 ∨ character = '~'.toUInt8 then [character]
  else
    ['%'.toUInt8, kHex.getD (character >>> 4).toNat 0, kHex.getD (character &&& 0x0F).toNat 0]

/-- `TrackerClient::EncodeField`. -/
def encodeField (value : Bytes) : Bytes := value.flatMap encodeCharacter

/-- `TrackerClient::DecodeField`. -/
def decodeField : Bytes → Except Error Bytes :=
  Percent.decodeWith Percent.byteOfSigned (.runtimeError "Tracker returned malformed escaping")
    (.runtimeError "Tracker returned malformed escaping")

/-- `Fields`. -/
def fields (line : Bytes) : List Bytes := Percent.splitFields tab line

end TrackerClient

/-! ## The server

In Rust: iterators over bytes, a format string for an escape, and a result that has to be UTF-8. -/

namespace TrackerServer

/-- `HEX`. -/
def hex : Bytes := ascii "0123456789ABCDEF"

/-- `u8::is_ascii_alphanumeric`. -/
def isAsciiAlphanumeric (byte : UInt8) : Bool :=
  ('0'.toUInt8 ≤ byte ∧ byte ≤ '9'.toUInt8) ∨ ('A'.toUInt8 ≤ byte ∧ byte ≤ 'Z'.toUInt8) ∨
    ('a'.toUInt8 ≤ byte ∧ byte ≤ 'z'.toUInt8)

/-- What `encode_field` appends for one byte. -/
def encodeByte (byte : UInt8) : Bytes :=
  if isAsciiAlphanumeric byte ∨ byte ∈ ascii "-_.~" then [byte]
  else ['%'.toUInt8, hex.getD (byte >>> 4).toNat 0, hex.getD (byte &&& 0x0F).toNat 0]

/-- `encode_field`. -/
def encodeField (value : Bytes) : Bytes := value.flatMap encodeByte

/-- The loop of `decode_field`. -/
def decodeBytes : Bytes → Except ApiError Bytes :=
  Percent.decodeWith Percent.byteOfShifted (bad "malformed field escaping")
    (bad "malformed field escaping")

/-- `decode_field`. -/
def decodeField (value : Bytes) : Except ApiError Bytes := do
  let decoded ← decodeBytes value
  if validUtf8 decoded then pure decoded else throw (bad "field is not UTF-8")

/-- `fields`. -/
def fields (body : Bytes) (expected : Nat) : Except ApiError (List Bytes) :=
  if body.length > maxBodyBytes then .error (bad "request body exceeds limit")
  else if !validUtf8 body then .error (bad "request body is not UTF-8")
  else
    let parts := body.splitOn tab
    if parts.length ≠ expected ∨ parts.any fun part => '\r'.toUInt8 ∈ part ∨ newline ∈ part then
      .error (bad "request fields are invalid")
    else parts.mapM decodeField

end TrackerServer

/-! ## One codec -/

namespace TrackerClient

theorem encodeField_eq : encodeField = Percent.encode isPlain := by
  have hunit : encodeCharacter = Percent.unit isPlain :=
    funext (Percent.byte_forall _ (by decide +kernel))
  funext value
  rw [encodeField, Percent.encode, hunit]

/-- **The client reads what was encoded.** -/
theorem decodeField_encode (text : Bytes) :
    decodeField (Percent.encode isPlain text) = .ok text := by
  rw [decodeField, Percent.byteOfSigned_eq, Percent.decodeWith_encode isPlain_percent]

end TrackerClient

namespace TrackerServer

theorem encodeField_eq : encodeField = Percent.encode isPlain := by
  have hunit : encodeByte = Percent.unit isPlain :=
    funext (Percent.byte_forall _ (by decide +kernel))
  funext value
  rw [encodeField, Percent.encode, hunit]

theorem decodeBytes_encode (text : Bytes) :
    decodeBytes (Percent.encode isPlain text) = .ok text := by
  rw [decodeBytes, Percent.byteOfShifted_eq, Percent.decodeWith_encode isPlain_percent]

/-- **The tracker reads what was encoded**, if it is UTF-8. -/
theorem decodeField_encode {text : Bytes} (h : validUtf8 text = true) :
    decodeField (Percent.encode isPlain text) = .ok text := by
  rw [decodeField, decodeBytes_encode]
  exact if_pos h

end TrackerServer

/-! ## The server of the other modules -/

namespace TrackerServer

theorem decodeField_eq : decodeField = Tracker.decodeField := by
  funext text
  obtain ⟨e, he, hrun⟩ := Percent.decodeWith_eq_elim (bad "malformed field escaping")
    (bad "malformed field escaping") text
  obtain rfl := or_self_iff.mp he
  rw [decodeField, Tracker.decodeField, unescape_eq_decode, decodeBytes,
    Percent.byteOfShifted_eq, hrun]
  cases Percent.decode text <;> rfl

theorem fields_eq : fields = Tracker.fields := by
  funext body expected
  rw [fields, Tracker.fields, decodeField_eq]

end TrackerServer

/-! ## Lines of fields

A separator cannot be part of an encoded field, so the splitter cuts where the join has glued. -/

/-- The fields with tabs between them. -/
def joinEncoded (texts : List Bytes) : Bytes :=
  [tab].intercalate (texts.map (Percent.encode isPlain))

theorem joinEncoded_eq_joinFields (texts : List Bytes) :
    joinEncoded texts = joinFields (texts.map Field.escaped) := by
  rw [joinEncoded, joinFields, List.map_map, ← encodeField_eq_encode]
  rfl

/-- **The client finds the fields of a line again**, and only of a line without a field it finds
one. -/
theorem TrackerClient.fields_join (texts : List Bytes) :
    (TrackerClient.fields (joinEncoded texts)).mapM TrackerClient.decodeField = .ok texts ↔
      texts ≠ [] := by
  by_cases hempty : texts = []
  · subst hempty
    exact iff_of_false (by decide +kernel) (not_not.mpr rfl)
  refine iff_of_true ?_ hempty
  rw [TrackerClient.fields, joinEncoded, Percent.splitFields_join (by decide) (by decide)
    (by decide) hempty]
  clear hempty
  induction texts with
  | nil => rfl
  | cons text rest ih =>
    rw [List.map_cons, List.mapM_cons, decodeField_encode, ih]
    rfl

theorem length_of_mapM {α β ε : Type} {f : α → Except ε β} {l : List α} {r : List β}
    (h : l.mapM f = .ok r) : r.length = l.length := by
  induction l generalizing r with
  | nil =>
    cases h
    rfl
  | cons a rest ih =>
    rw [List.mapM_cons] at h
    cases ha : f a with
    | error e =>
      rw [ha] at h
      cases h
    | ok b =>
      cases hrest : rest.mapM f with
      | error e =>
        rw [ha, hrest] at h
        cases h
      | ok bs =>
        rw [ha, hrest] at h
        cases h
        rw [List.length_cons, List.length_cons, ih hrest]

/-- **The tracker finds the fields of a line again** if it expects their number and the line is not
too long. -/
theorem TrackerServer.fields_join {texts : List Bytes} (h : ∀ text ∈ texts, validUtf8 text = true)
    (expected : Nat) :
    TrackerServer.fields (joinEncoded texts) expected = .ok texts ↔
      texts ≠ [] ∧ expected = texts.length ∧ (joinEncoded texts).length ≤ maxBodyBytes := by
  constructor
  · intro hfields
    rw [fields] at hfields
    split at hfields
    · cases hfields
    rename_i hlength
    split at hfields
    · cases hfields
    dsimp only at hfields
    split at hfields
    · cases hfields
    rename_i hparts
    have hcount := length_of_mapM hfields
    have hsome := List.length_pos_iff.mpr (List.splitOn_ne_nil tab (joinEncoded texts))
    refine ⟨List.length_pos_iff.mp (hcount ▸ hsome), ?_, not_lt.mp hlength⟩
    rw [hcount]
    exact (not_not.mp (not_or.mp hparts).1).symm
  · rintro ⟨hne, rfl, hlength⟩
    rw [joinEncoded_eq_joinFields] at hlength
    rw [fields_eq, joinEncoded_eq_joinFields]
    have hparts : texts.map Field.escaped ≠ [] := by simpa using hne
    have hfields := fields_joinFields hparts hlength (by simpa [Field.escaped] using h)
    rw [List.length_map] at hfields
    simpa [Field.escaped, Function.comp_def] using hfields

end VeritasSync
