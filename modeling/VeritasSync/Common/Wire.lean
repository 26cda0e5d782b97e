import VeritasSync.Common.Protocol
import VeritasSync.Lib.Codec

/-!
# The wire format

The bytes of every message, as `protocol.cpp` writes and reads them.  The structures here are the
ones of `protocol.h`, byte for byte: identifiers and digests of fixed length, sizes and clocks of 64
bits, texts as byte strings.  The rest of the development works with messages whose texts have been
decoded further.

`Writer` and `Reader` are classes of the source.  Their member functions are computations of
`Codec` here, and every decoder is shown to accept exactly what its encoder writes for an
admissible message.

What has to be shown about a format is one thing, and it is the same for all of them: the encoder
and the decoder agree on which messages there are and on the bytes of each.  `Codec.Canonical` says
it, and every section below ends with an instance of it.  It is stronger than a round trip.  A
decoder that accepted a second spelling of some message (a flag of two instead of one, a length
field that is longer than it has to be, bytes after the end) would still read back everything the
encoder writes; here it is not canonical.

Each section has the same three parts.  First come the functions of the source, then the bytes of a
message written down as a list (`spellHello` and the like), and last the two equivalences: what the
encoder returns is that list, and what the decoder accepts is that list.  The conditions of the two
sides need not be the same: `DecodeHello` wants texts that are not empty and `EncodeHello` does not
ask, so what both agree on is the narrower of the two.
-/

set_option autoImplicit false

namespace VeritasSync

namespace Wire

open Codec (Reads Writes)

/-! ## `Writer` and `Reader` -/

/-- A `std::array` of bytes. -/
abbrev Block (n : Nat) := { b : Bytes // b.length = n }

/-- A computation of a `Reader`. -/
abbrev Reader (α : Type) := Codec.Reader UInt8 Error α

/-- A computation of a `Writer`. -/
abbrev Writer (α : Type) := Codec.Writer UInt8 Error α

namespace Writer

/-- `Writer::U8`. -/
def u8 (value : UInt8) : Writer Unit := Codec.raw [value]

/-- `Writer::U16`. -/
def u16 (value : UInt16) : Writer Unit := Codec.raw (Codec.littleEndian 2 value.toNat)

/-- `Writer::U32`. -/
def u32 (value : UInt32) : Writer Unit := Codec.raw (Codec.littleEndian 4 value.toNat)

/-- `Writer::U64`. -/
def u64 (value : UInt64) : Writer Unit := Codec.raw (Codec.littleEndian 8 value.toNat)

/-- `Writer::Bytes`. -/
def bytes (value : Bytes) : Writer Unit := Codec.raw value

/-- `Writer::String`. -/
def string (value : Bytes) : Writer Unit :=
  if value.length > 2 ^ 16 - 1 then Exec.raise (.invalidArgument "string too long")
  else do
    u16 (UInt16.ofNat value.length)
    bytes value

end Writer

namespace Reader

/-- The exception of `Reader::Need`. -/
def truncated : Error := .invalidArgument "truncated payload"

/-- `Reader::U16`. -/
def u16 : Reader UInt16 := do
  let value ← Codec.number truncated 2
  pure (UInt16.ofNat value)

/-- `Reader::U32`. -/
def u32 : Reader UInt32 := do
  let value ← Codec.number truncated 4
  pure (UInt32.ofNat value)

/-- `Reader::U64`. -/
def u64 : Reader UInt64 := do
  let value ← Codec.number truncated 8
  pure (UInt64.ofNat value)

/-- `Reader::U8`. -/
def u8 : Reader UInt8 := do
  let value ← Codec.number truncated 1
  pure (UInt8.ofNat value)

/-- `Reader::Bytes`. -/
def bytes (count : Nat) : Reader Bytes := Codec.take truncated count

/-- `Reader::BytesTo` an array. -/
def block (n : Nat) : Reader (Block n) := fun input =>
  if h : n > input.length then (.error truncated, input)
  else (.ok ⟨input.take n, List.length_take_of_le (Nat.le_of_not_lt h)⟩, input.drop n)

/-- `Reader::String`. -/
def string : Reader Bytes := do
  let length ← u16
  bytes length.toNat

/-- `Reader::Finish`. -/
def finish : Reader Unit := Codec.finish (.invalidArgument "trailing bytes")

end Reader

/-- The bytes of a text with its length in front. -/
def spell (value : Bytes) : Bytes := Codec.littleEndian 2 value.length ++ value

theorem writes_u8 (value : UInt8) : Writes (Writer.u8 value) True [value] := Codec.writes_raw _

theorem writes_u16 (value : UInt16) :
    Writes (Writer.u16 value) True (Codec.littleEndian 2 value.toNat) := Codec.writes_raw _

theorem writes_u32 (value : UInt32) :
    Writes (Writer.u32 value) True (Codec.littleEndian 4 value.toNat) := Codec.writes_raw _

theorem writes_u64 (value : UInt64) :
    Writes (Writer.u64 value) True (Codec.littleEndian 8 value.toNat) := Codec.writes_raw _

theorem writes_bytes (value : Bytes) : Writes (Writer.bytes value) True value := Codec.writes_raw _

theorem writes_string (value : Bytes) :
    Writes (Writer.string value) (value.length < 2 ^ 16) (spell value) := by
  intro b b'
  rw [Writer.string, Codec.ite_raise_iff, ((writes_u16 _).bind (writes_bytes value)) b b']
  constructor
  · rintro ⟨hshort, -, rfl⟩
    have hlength : value.length < 2 ^ 16 := by omega
    rw [UInt16.toNat_ofNat_of_lt' hlength]
    exact ⟨hlength, rfl⟩
  · rintro ⟨hlength, rfl⟩
    rw [UInt16.toNat_ofNat_of_lt' hlength]
    exact ⟨by omega, ⟨trivial, trivial⟩, rfl⟩

theorem reads_u8 : Reads Reader.u8 (fun value => [value]) fun _ => True := by
  have h := (Codec.reads_number Reader.truncated 1).map (f := UInt8.ofNat) (g := UInt8.toNat)
    (fun n hn => UInt8.toNat_ofNat_of_lt' hn) UInt8.toNat_lt fun _ => UInt8.ofNat_toNat
  have henc : (fun value : UInt8 => [value]) = fun value => Codec.littleEndian 1 value.toNat := by
    funext value
    rw [Codec.littleEndian, Codec.littleEndian, UInt8.ofNat_toNat]
  rw [henc]
  exact h

theorem reads_u16 :
    Reads Reader.u16 (fun value => Codec.littleEndian 2 value.toNat) fun _ => True :=
  (Codec.reads_number Reader.truncated 2).map (fun _ hn => UInt16.toNat_ofNat_of_lt' hn)
    UInt16.toNat_lt fun _ => UInt16.ofNat_toNat

theorem reads_u32 :
    Reads Reader.u32 (fun value => Codec.littleEndian 4 value.toNat) fun _ => True :=
  (Codec.reads_number Reader.truncated 4).map (fun _ hn => UInt32.toNat_ofNat_of_lt' hn)
    UInt32.toNat_lt fun _ => UInt32.ofNat_toNat

theorem reads_u64 :
    Reads Reader.u64 (fun value => Codec.littleEndian 8 value.toNat) fun _ => True :=
  (Codec.reads_number Reader.truncated 8).map (fun _ hn => UInt64.toNat_ofNat_of_lt' hn)
    UInt64.toNat_lt fun _ => UInt64.ofNat_toNat

theorem reads_bytes (count : Nat) : Reads (Reader.bytes count) id fun l => l.length = count :=
  Codec.reads_take _ _

theorem reads_block (n : Nat) : Reads (Reader.block n) Subtype.val fun _ => True := by
  intro b a rest
  have htake := Codec.reads_take (σ := UInt8) Reader.truncated n b a.1 rest
  rw [Codec.take] at htake
  rw [Reader.block]
  split
  · rename_i hshort
    rw [if_pos hshort] at htake
    constructor
    · rintro ⟨⟩
    · rintro ⟨-, hb⟩
      cases htake.mpr ⟨a.2, hb⟩
  · rename_i hlong
    rw [if_neg hlong, Prod.mk.injEq, Except.ok.injEq] at htake
    rw [Prod.mk.injEq, Except.ok.injEq, Subtype.ext_iff, htake]
    exact and_congr_left fun _ => iff_of_true a.2 trivial

theorem reads_string : Reads Reader.string spell fun value => value.length < 2 ^ 16 := by
  intro b value rest
  rw [Reader.string, reads_u16.bind_iff]
  simp only [reads_bytes _ _ _ _, id]
  constructor
  · rintro ⟨length, -, tail, rfl, hlength, rfl⟩
    refine ⟨hlength ▸ UInt16.toNat_lt length, ?_⟩
    rw [spell, hlength, List.append_assoc]
  · rintro ⟨hlength, rfl⟩
    refine ⟨UInt16.ofNat value.length, trivial, value ++ rest, ?_⟩
    rw [UInt16.toNat_ofNat_of_lt' hlength]
    exact ⟨by rw [spell, List.append_assoc], rfl, rfl⟩

/-- A length within a bound that fits into 32 bits survives the cast. -/
theorem toNat_ofNat_of_le {n bound : Nat} (h : n ≤ bound) (hbound : bound < UInt32.size) :
    (UInt32.ofNat n).toNat = n :=
  UInt32.toNat_ofNat_of_lt' (Nat.lt_of_le_of_lt h hbound)

/-! ## Frames

Sixteen bytes in front of every payload: two letters, the version, the type, the request and the
length.  `DecodeFrameView` compares the length with what follows, so a frame has exactly one
spelling, and the cast of the length to 32 bits is harmless because it happens after the check of
the size. -/

/-- `protocol::FrameType`: the types for which `ValidType` holds. -/
inductive FrameType where
  | hello
  | manifest
  | error
  | heartbeat
  | fileRequest
  | cancel
  | versionManifest
  | policyHello
  | policyPropose
  | policyAck
  | policyCommit
  | policyDone
  | policyReject
  | chunk
  | chunkAck
  | windowUpdate
  deriving DecidableEq, Repr

namespace FrameType

/-- The number of a frame type. -/
def code : FrameType → UInt8
  | .hello => 1
  | .manifest => 2
  | .error => 3
  | .heartbeat => 4
  | .fileRequest => 5
  | .cancel => 6
  | .versionManifest => 7
  | .policyHello => 8
  | .policyPropose => 9
  | .policyAck => 10
  | .policyCommit => 11
  | .policyDone => 12
  | .policyReject => 13
  | .chunk => 64
  | .chunkAck => 65
  | .windowUpdate => 66

/-- The frame types, in the order of their numbers. -/
def all : List FrameType :=
  [.hello, .manifest, .error, .heartbeat, .fileRequest, .cancel, .versionManifest, .policyHello,
    .policyPropose, .policyAck, .policyCommit, .policyDone, .policyReject, .chunk, .chunkAck,
    .windowUpdate]

/-- The frame type with a number, if `ValidType` knows it. -/
def ofCode (type : UInt8) : Option FrameType := all.find? fun t => t.code = type

theorem ofCode_eq_some_iff {type : UInt8} {t : FrameType} :
    ofCode type = some t ↔ type = t.code := by
  constructor
  · intro h
    have hcode : t.code = type := by simpa using List.find?_some h
    exact hcode.symm
  · rintro rfl
    cases t <;> rfl

end FrameType

/-- `protocol::kFrameHeaderSize`: a mark, the version, the type, the number and the length. -/
def frameHeaderSize : Nat := 16

/-- `protocol::kMaxFrameSize`: header and payload together are at most this long. -/
def maxFrameSize : Nat := 16 * 1024 * 1024

/-- `protocol::kProtocolVersion`. -/
def protocolVersion : UInt8 := 1

/-- `protocol::Frame`: a type, a number and a payload. -/
structure Frame where
  type : FrameType
  requestId : UInt64
  payload : Bytes
  deriving DecidableEq

/-- `protocol::FrameView`; the payload is what the span shows. -/
structure FrameView where
  type : FrameType
  requestId : UInt64
  payload : Bytes
  deriving DecidableEq

/-- The header that `EncodeFrame` and `EncodeChunkFrame` write. -/
def header (type : FrameType) (requestId : UInt64) (length : Nat) : Writer Unit := do
  Writer.u8 'V'.toUInt8
  Writer.u8 'S'.toUInt8
  Writer.u8 protocolVersion
  Writer.u8 type.code
  Writer.u64 requestId
  Writer.u32 (UInt32.ofNat length)

/-- `EncodeFrame`: the header and the payload, if the frame is not too long. -/
def encodeFrame (frame : Frame) : Except Error Bytes :=
  if frame.payload.length > maxFrameSize - frameHeaderSize then
    .error (.invalidArgument "invalid frame")
  else Codec.written do
    header frame.type frame.requestId frame.payload.length
    Writer.bytes frame.payload

/-- The part of `DecodeFrameView` that reads; `wire` is the whole frame. -/
def readFrame (wire : Bytes) : Reader FrameView := do
  let v ← Reader.u8
  let s ← Reader.u8
  if v ≠ 'V'.toUInt8 ∨ s ≠ 'S'.toUInt8 then Exec.raise (.invalidArgument "bad magic")
  else do
    let version ← Reader.u8
    if version ≠ protocolVersion then Exec.raise (.invalidArgument "unsupported version")
    else do
      let code ← Reader.u8
      let type ← Codec.ofOption (.invalidArgument "unknown frame type") (FrameType.ofCode code)
      let requestId ← Reader.u64
      let payloadLength ← Reader.u32
      if payloadLength.toNat ≠ wire.length - frameHeaderSize then
        Exec.raise (.invalidArgument "payload length mismatch")
      else pure ⟨type, requestId, (wire.drop frameHeaderSize).take payloadLength.toNat⟩

/-- `DecodeFrameView`: the frame without a copy of its payload. -/
def decodeFrameView (wire : Bytes) : Except Error FrameView :=
  if wire.length < frameHeaderSize ∨ wire.length > maxFrameSize then
    .error (.invalidArgument "invalid frame size")
  else Codec.readFrom (readFrame wire) wire

/-- `DecodeFrame`: the same checks, with a copy of the payload. -/
def decodeFrame (wire : Bytes) : Except Error Frame := do
  let view ← decodeFrameView wire
  pure ⟨view.type, view.requestId, view.payload⟩

theorem writes_header (type : FrameType) (requestId : UInt64) (length : Nat) :
    Writes (header type requestId length) True ([ 'V'.toUInt8, 'S'.toUInt8, protocolVersion,
      type.code]
      ++ Codec.littleEndian 8 requestId.toNat ++ Codec.littleEndian 4
        (UInt32.ofNat length).toNat) := by
  have h := (writes_u8 'V'.toUInt8).bind ((writes_u8 'S'.toUInt8).bind
    ((writes_u8 protocolVersion).bind ((writes_u8 type.code).bind ((writes_u64 requestId).bind
      (writes_u32 (UInt32.ofNat length))))))
  rw [header]
  simpa using h

/-- The bytes of a frame. -/
def spellFrame (frame : Frame) : Bytes :=
  ['V'.toUInt8, 'S'.toUInt8, protocolVersion, frame.type.code] ++
    Codec.littleEndian 8 frame.requestId.toNat ++
      Codec.littleEndian 4 frame.payload.length ++ frame.payload

@[simp] theorem length_spellFrame (frame : Frame) :
    (spellFrame frame).length = frameHeaderSize + frame.payload.length := by
  simp only [spellFrame, frameHeaderSize, List.length_append, List.length_cons, List.length_nil,
    Codec.length_littleEndian]

@[simp] theorem drop_spellFrame (frame : Frame) :
    (spellFrame frame).drop frameHeaderSize = frame.payload := by
  refine List.drop_left' ?_
  simp only [frameHeaderSize, List.length_append, List.length_cons, List.length_nil,
    Codec.length_littleEndian]

theorem encodeFrame_eq_ok_iff {frame : Frame} {wire : Bytes} :
    encodeFrame frame = .ok wire ↔
      frame.payload.length ≤ maxFrameSize - frameHeaderSize ∧ wire = spellFrame frame := by
  rw [encodeFrame]
  split
  · rename_i hlong
    refine ⟨nofun, ?_⟩
    rintro ⟨hshort, -⟩
    omega
  · rename_i hshort
    rw [((writes_header _ _ _).bind (writes_bytes _)).written_iff]
    have hlength := not_lt.mp hshort
    rw [toNat_ofNat_of_le hlength (by decide)]
    exact and_congr_left fun _ => iff_of_true ⟨trivial, trivial⟩ hlength

/-- What `DecodeFrameView` reads is the header, and the payload is what follows it. -/
theorem readFrame_iff {wire rest : Bytes} {view : FrameView} :
    readFrame wire wire = (.ok view, rest) ↔
      wire.length < 2 ^ 32 + frameHeaderSize ∧ view.payload = rest ∧
        wire = spellFrame ⟨view.type, view.requestId, rest⟩ := by
  simp only [readFrame, reads_u8.bind_iff, Codec.ite_raise_iff, Codec.ofOption_bind_iff,
    reads_u64.bind_iff, reads_u32.bind_iff, Codec.pure_iff, FrameType.ofCode_eq_some_iff]
  constructor
  · rintro ⟨v, -, _, hwire, s, -, _, rfl, hmagic, version, -, _, rfl, hversion, code, -, _, rfl,
      type, rfl, id, -, _, rfl, length, -, tail, rfl, hlength, rfl, rfl⟩
    rw [not_or, not_not, not_not] at hmagic
    obtain ⟨rfl, rfl⟩ := hmagic
    obtain rfl := not_not.mp hversion
    have htail : wire.length = frameHeaderSize + rest.length := by
      simp [hwire, frameHeaderSize]
      omega
    have hrest : length.toNat = rest.length := by omega
    have hspell : wire = spellFrame ⟨type, id, rest⟩ := by
      rw [hwire, spellFrame]
      simp [hrest]
    refine ⟨?_, ?_, hspell⟩
    · have := length.toNat_lt
      omega
    · rw [hspell, drop_spellFrame, hrest, List.take_length]
  · rintro ⟨hlength, hpayload, hwire⟩
    have hlength' : wire.length = frameHeaderSize + rest.length := by
      rw [hwire, length_spellFrame]
    have hsmall : rest.length < UInt32.size := by
      have : UInt32.size = 2 ^ 32 := rfl
      omega
    have hrest : (UInt32.ofNat rest.length).toNat = rest.length := UInt32.toNat_ofNat_of_lt' hsmall
    refine ⟨'V'.toUInt8, trivial, _, ?_, 'S'.toUInt8, trivial, _, rfl, by simp, protocolVersion,
      trivial, _, rfl, by simp, view.type.code, trivial, _, rfl, view.type, rfl, view.requestId,
      trivial, _, rfl, UInt32.ofNat rest.length, trivial, rest, rfl, ?_, ?_, rfl⟩
    · rw [hwire, spellFrame, hrest]
      simp
    · rw [hrest, hlength']
      omega
    · obtain ⟨type, id, payload⟩ := view
      cases hpayload
      rw [hrest, hwire, drop_spellFrame, List.take_length]

/-- The encoder takes every payload that fits into a frame. -/
def admitsFrame (frame : Frame) : Prop := frame.payload.length ≤ maxFrameSize - frameHeaderSize

theorem decodeFrame_eq_ok_iff (wire : Bytes) (frame : Frame) :
    decodeFrame wire = .ok frame ↔ admitsFrame frame ∧ wire = spellFrame frame := by
  obtain ⟨type, id, payload⟩ := frame
  have hview : decodeFrame wire = .ok ⟨type, id, payload⟩ ↔
      decodeFrameView wire = .ok ⟨type, id, payload⟩ := by
    rw [decodeFrame]
    cases decodeFrameView wire with
    | error e => exact ⟨nofun, nofun⟩
    | ok view =>
      obtain ⟨type', id', payload'⟩ := view
      show Except.ok _ = Except.ok _ ↔ _
      simp
  rw [hview, admitsFrame, decodeFrameView]
  have hmax : maxFrameSize < 2 ^ 32 := by decide
  have hheader : frameHeaderSize ≤ maxFrameSize := by decide
  split
  · rename_i hsize
    refine ⟨nofun, ?_⟩
    rintro ⟨hpayload, rfl⟩
    rw [length_spellFrame] at hsize
    omega
  · rename_i hsize
    simp only [Codec.readFrom_iff, readFrame_iff]
    constructor
    · rintro ⟨rest, -, rfl, hwire⟩
      have hlength : wire.length = frameHeaderSize + payload.length := by
        rw [hwire, length_spellFrame]
      exact ⟨by omega, hwire⟩
    · rintro ⟨hpayload, rfl⟩
      rw [length_spellFrame] at hsize ⊢
      exact ⟨payload, by omega, rfl, rfl⟩

/-- **Frames are canonical.**  Every frame that is accepted is the one encoding of what it is read
as. -/
theorem frame_canonical : Codec.Canonical encodeFrame decodeFrame admitsFrame :=
  .of_writes (fun _ _ => encodeFrame_eq_ok_iff) (fun _ h => h) decodeFrame_eq_ok_iff

example : decodeFrame [86, 83, 1, 4, 7, 0, 0, 0, 0, 0, 0, 0, 1, 0, 0, 0, 9] =
    .ok ⟨.heartbeat, 7, [9]⟩ := by decide

/-! ## HELLO -/

/-- The number of a role. -/
def roleCode : Role → UInt8
  | .source => 1
  | .target => 2
  | .peer => 3

/-- The role with a number. -/
def roleOf (code : UInt8) : Option Role :=
  [Role.source, .target, .peer].find? fun r => roleCode r = code

theorem roleOf_eq_some_iff {code : UInt8} {role : Role} :
    roleOf code = some role ↔ code = roleCode role := by
  constructor
  · intro h
    have hcode : roleCode role = code := by simpa using List.find?_some h
    exact hcode.symm
  · rintro rfl
    cases role <;> rfl

/-- `EncodeHello`. -/
def encodeHello (hello : Hello) : Except Error Bytes := Codec.written do
  Writer.string hello.taskId
  Writer.u8 (roleCode hello.role)
  Writer.string hello.deviceId
  Writer.string hello.deviceFingerprint
  Writer.string hello.authorizationDigest

/-- What `DecodeHello` requires of the texts. -/
def validHello (hello : Hello) : Prop :=
  hello.taskId ≠ [] ∧ hello.deviceId ≠ [] ∧ hello.authorizationDigest ≠ []

instance (hello : Hello) : Decidable (validHello hello) := inferInstanceAs (Decidable (_ ∧ _))

/-- `DecodeHello`. -/
def decodeHello (payload : Bytes) : Except Error Hello := Codec.readFrom (do
  let taskId ← Reader.string
  let code ← Reader.u8
  let deviceId ← Reader.string
  let deviceFingerprint ← Reader.string
  let authorizationDigest ← Reader.string
  let role ← Codec.ofOption (.invalidArgument "invalid hello") (roleOf code)
  let hello : Hello := ⟨taskId, role, deviceId, deviceFingerprint, authorizationDigest⟩
  if ¬ validHello hello then Exec.raise (.invalidArgument "invalid hello")
  else do
    Reader.finish
    pure hello) payload

/-- The texts of a HELLO are short enough. -/
def fitsHello (hello : Hello) : Prop :=
  hello.taskId.length < 2 ^ 16 ∧ hello.deviceId.length < 2 ^ 16 ∧
    hello.deviceFingerprint.length < 2 ^ 16 ∧ hello.authorizationDigest.length < 2 ^ 16

/-- The bytes of a HELLO. -/
def spellHello (hello : Hello) : Bytes :=
  spell hello.taskId ++ ([roleCode hello.role] ++ (spell hello.deviceId ++
    (spell hello.deviceFingerprint ++ spell hello.authorizationDigest)))

theorem encodeHello_eq_ok_iff (payload : Bytes) (hello : Hello) :
    encodeHello hello = .ok payload ↔ fitsHello hello ∧ payload = spellHello hello := by
  have hwrites := (writes_string hello.taskId).bind ((writes_u8 (roleCode hello.role)).bind
    ((writes_string hello.deviceId).bind ((writes_string hello.deviceFingerprint).bind
      (writes_string hello.authorizationDigest))))
  simp only [true_and] at hwrites
  exact hwrites.written_iff

/-- What a HELLO has to satisfy for both codecs. -/
def admitsHello (hello : Hello) : Prop := validHello hello ∧ fitsHello hello

theorem decodeHello_eq_ok_iff (payload : Bytes) (hello : Hello) :
    decodeHello payload = .ok hello ↔ admitsHello hello ∧ payload = spellHello hello := by
  rw [decodeHello, Codec.readFrom_iff]
  simp only [reads_string.bind_iff, reads_u8.bind_iff, Codec.ofOption_bind_iff, Codec.ite_raise_iff,
    Reader.finish, Codec.finish_bind_iff, Codec.pure_iff, roleOf_eq_some_iff]
  constructor
  · rintro ⟨_, taskId, htask, _, rfl, _, -, _, rfl, deviceId, hdevice, _, rfl, fingerprint,
      hfingerprint, _, rfl, digest, hdigest, _, rfl, role, rfl, hvalid, rfl, rfl, rfl⟩
    refine ⟨⟨not_not.mp hvalid, htask, hdevice, hfingerprint, hdigest⟩, ?_⟩
    simp [spellHello]
  · rintro ⟨⟨hvalid, htask, hdevice, hfingerprint, hdigest⟩, rfl⟩
    refine ⟨[], hello.taskId, htask, _, rfl, roleCode hello.role, trivial, _, rfl, hello.deviceId,
      hdevice, _, rfl, hello.deviceFingerprint, hfingerprint, _, rfl, hello.authorizationDigest,
      hdigest, [], ?_, hello.role, rfl, not_not.mpr hvalid, rfl, rfl, rfl⟩
    rw [List.append_nil]

/-- **HELLO is canonical.** -/
theorem hello_canonical : Codec.Canonical encodeHello decodeHello admitsHello :=
  .of_writes encodeHello_eq_ok_iff (fun _ h => h.2) decodeHello_eq_ok_iff

/-! ## Counted lists

Both manifests and the file request start with a number of entries and go on with the entries.  The
decoder takes the number only up to a million, and then reads that many entries or fails. -/

/-- The largest number of entries of a manifest and of ranges of a request. -/
def maxCount : Nat := 1000000

section Counted

variable {α : Type}

/-- The number of entries, and the entries. -/
def Writer.counted (write : α → Writer Unit) (l : List α) : Writer Unit := do
  Writer.u32 (UInt32.ofNat l.length)
  l.forM write

/-- The number of entries, and the entries. -/
def Reader.counted (tooMany : Error) (read : Reader α) : Reader (List α) := do
  let count ← Reader.u32
  if count.toNat > maxCount then Exec.raise tooMany
  else Codec.many read count.toNat

/-- The bytes of a counted list. -/
def spellCounted (enc : α → Bytes) (l : List α) : Bytes :=
  Codec.littleEndian 4 l.length ++ l.flatMap enc

variable {write : α → Writer Unit} {read : Reader α} {enc : α → Bytes} {ok : α → Prop}

/-- A list with its revision in front, as both manifests have it. -/
theorem writes_counted {tooMany : Error} (h : ∀ a, Writes (write a) (ok a) (enc a))
    (revision : UInt64) (l : List α) :
    Writes (if l.length > maxCount then Exec.raise tooMany
      else Writer.u64 revision >>= fun _ => Writer.counted write l)
      (l.length ≤ maxCount ∧ ∀ a ∈ l, ok a)
      (Codec.littleEndian 8 revision.toNat ++ spellCounted enc l) := by
  intro b b'
  have hentries : Writes (l.forM write) _ _ := Codec.writes_forM fun a _ => h a
  have hwrites := (writes_u64 revision).bind ((writes_u32 (UInt32.ofNat l.length)).bind hentries)
  rw [Codec.ite_raise_iff, Writer.counted, hwrites b b', not_lt, spellCounted]
  constructor
  · rintro ⟨hlength, ⟨-, -, hall⟩, rfl⟩
    exact ⟨⟨hlength, hall⟩, by rw [toNat_ofNat_of_le hlength (by decide)]⟩
  · rintro ⟨⟨hlength, hall⟩, rfl⟩
    exact ⟨hlength, ⟨trivial, trivial, hall⟩, by rw [toNat_ofNat_of_le hlength (by decide)]⟩

theorem reads_counted {tooMany : Error} (h : Reads read enc ok) :
    Reads (Reader.counted tooMany read) (spellCounted enc)
      fun l => l.length ≤ maxCount ∧ ∀ a ∈ l, ok a := by
  intro b l rest
  rw [Reader.counted, reads_u32.bind_iff]
  simp only [Codec.ite_raise_iff, Codec.reads_many h _ _ _ _, not_lt, spellCounted]
  constructor
  · rintro ⟨count, -, _, rfl, hcount, ⟨hlength, hall⟩, rfl⟩
    exact ⟨⟨hlength ▸ hcount, hall⟩, by rw [hlength, List.append_assoc]⟩
  · rintro ⟨⟨hlength, hall⟩, rfl⟩
    have hcount := toNat_ofNat_of_le hlength (by decide)
    refine ⟨UInt32.ofNat l.length, trivial, l.flatMap enc ++ rest, ?_,
      hcount.le.trans hlength, ?_, rfl⟩
    · rw [hcount, List.append_assoc]
    · exact ⟨hcount.symm, hall⟩

end Counted

/-! ## MANIFEST -/

/-- `protocol::ManifestEntry`. -/
structure ManifestEntry where
  relativePath : Bytes
  size : UInt64
  contentHash : Bytes
  deriving DecidableEq

/-- `protocol::Manifest`. -/
structure Manifest where
  revision : UInt64
  entries : List ManifestEntry
  deriving DecidableEq

/-- The body of the loop of `EncodeManifest`. -/
def writeManifestEntry (entry : ManifestEntry) : Writer Unit := do
  Writer.string entry.relativePath
  Writer.u64 entry.size
  Writer.string entry.contentHash

/-- `EncodeManifest`. -/
def encodeManifest (manifest : Manifest) : Except Error Bytes := Codec.written <|
  if manifest.entries.length > maxCount then
    Exec.raise (.invalidArgument "too many manifest entries")
  else do
    Writer.u64 manifest.revision
    Writer.counted writeManifestEntry manifest.entries

/-- The body of the loop of `DecodeManifest`. -/
def readManifestEntry : Reader ManifestEntry := do
  let path ← Reader.string
  let size ← Reader.u64
  let hash ← Reader.string
  if path = [] then Exec.raise (.invalidArgument "empty manifest path")
  else pure ⟨path, size, hash⟩

/-- `DecodeManifest`. -/
def decodeManifest (payload : Bytes) : Except Error Manifest := Codec.readFrom (do
  let revision ← Reader.u64
  let entries ← Reader.counted (.invalidArgument "too many manifest entries") readManifestEntry
  Reader.finish
  pure ⟨revision, entries⟩) payload

/-- The bytes of an entry. -/
def spellManifestEntry (entry : ManifestEntry) : Bytes :=
  spell entry.relativePath ++ (Codec.littleEndian 8 entry.size.toNat ++ spell entry.contentHash)

/-- The texts of an entry are short enough. -/
def fitsManifestEntry (entry : ManifestEntry) : Prop :=
  entry.relativePath.length < 2 ^ 16 ∧ entry.contentHash.length < 2 ^ 16

theorem writes_manifestEntry (entry : ManifestEntry) :
    Writes (writeManifestEntry entry) (fitsManifestEntry entry) (spellManifestEntry entry) := by
  have h := (writes_string entry.relativePath).bind
    ((writes_u64 entry.size).bind (writes_string entry.contentHash))
  simp only [true_and] at h
  exact h

theorem reads_manifestEntry : Reads readManifestEntry spellManifestEntry
    fun entry => fitsManifestEntry entry ∧ entry.relativePath ≠ [] := by
  intro b entry rest
  simp only [readManifestEntry, reads_string.bind_iff, reads_u64.bind_iff, Codec.ite_raise_iff,
    Codec.pure_iff]
  constructor
  · rintro ⟨path, hpath, _, rfl, size, -, _, rfl, hash, hhash, _, rfl, hne, rfl, rfl⟩
    exact ⟨⟨⟨hpath, hhash⟩, hne⟩, by simp [spellManifestEntry]⟩
  · rintro ⟨⟨⟨hpath, hhash⟩, hne⟩, rfl⟩
    refine ⟨entry.relativePath, hpath, _, ?_, entry.size, trivial, _, rfl, entry.contentHash, hhash,
      rest, rfl, hne, rfl, rfl⟩
    simp [spellManifestEntry]

/-- The bytes of a manifest. -/
def spellManifest (manifest : Manifest) : Bytes :=
  Codec.littleEndian 8 manifest.revision.toNat ++ spellCounted spellManifestEntry manifest.entries

/-- What a manifest has to satisfy for both codecs. -/
def admitsManifest (manifest : Manifest) : Prop :=
  manifest.entries.length ≤ maxCount ∧
    ∀ entry ∈ manifest.entries, fitsManifestEntry entry ∧ entry.relativePath ≠ []

theorem decodeManifest_eq_ok_iff (payload : Bytes) (manifest : Manifest) :
    decodeManifest payload = .ok manifest ↔
      admitsManifest manifest ∧ payload = spellManifest manifest := by
  rw [decodeManifest, Codec.readFrom_iff]
  simp only [reads_u64.bind_iff, (reads_counted reads_manifestEntry).bind_iff, Reader.finish,
    Codec.finish_bind_iff, Codec.pure_iff]
  constructor
  · rintro ⟨_, revision, -, _, rfl, entries, hentries, _, rfl, rfl, rfl, rfl⟩
    exact ⟨hentries, by rw [spellManifest, List.append_nil]⟩
  · rintro ⟨hentries, rfl⟩
    exact ⟨[], manifest.revision, trivial, _, rfl, manifest.entries, hentries, [],
      by rw [List.append_nil], rfl, rfl, rfl⟩

/-- **MANIFEST is canonical.** -/
theorem manifest_canonical : Codec.Canonical encodeManifest decodeManifest admitsManifest :=
  .of_writes (fun _ m => (writes_counted writes_manifestEntry m.revision m.entries).written_iff)
    (fun _ h => ⟨h.1, fun entry hentry => (h.2 entry hentry).1⟩) decodeManifest_eq_ok_iff

/-! ## VERSION_MANIFEST -/

/-- `protocol::VersionedManifestEntry`. -/
structure VersionedManifestEntry where
  relativePath : Bytes
  kind : FileKind
  size : UInt64
  contentHash : Bytes
  versionId : Bytes
  originDeviceId : Bytes
  logicalClock : UInt64
  parentVersionId : Bytes
  deletedAtMs : Option UInt64
  deriving DecidableEq

/-- `protocol::VersionedManifest`. -/
structure VersionedManifest where
  revision : UInt64
  entries : List VersionedManifestEntry
  deriving DecidableEq

/-- The number of a `VersionedEntryKind`. -/
def kindCode : FileKind → UInt8
  | .file => 1
  | .directory => 2
  | .tombstone => 3

/-- The kind with a number. -/
def kindOf (code : UInt8) : Option FileKind :=
  [FileKind.file, .directory, .tombstone].find? fun k => kindCode k = code

theorem kindOf_eq_some_iff {code : UInt8} {kind : FileKind} :
    kindOf code = some kind ↔ code = kindCode kind := by
  constructor
  · intro h
    have hcode : kindCode kind = code := by simpa using List.find?_some h
    exact hcode.symm
  · rintro rfl
    cases kind <;> rfl

/-- The check that both codecs make on an entry. -/
def invalidEntry (entry : VersionedManifestEntry) : Prop :=
  entry.relativePath = [] ∨ entry.versionId = [] ∨ entry.originDeviceId = [] ∨
    (entry.kind = .file ∧ entry.contentHash = []) ∨ (entry.kind ≠ .file ∧ entry.contentHash ≠ []) ∨
    (entry.kind ≠ .file ∧ entry.size ≠ 0) ∨
    (decide (entry.kind = .tombstone) ≠ entry.deletedAtMs.isSome)

instance (entry : VersionedManifestEntry) : Decidable (invalidEntry entry) :=
  inferInstanceAs (Decidable (_ ∨ _))

/-- The flag of the optional timestamp, and the timestamp. -/
def writeDeletedAt : Option UInt64 → Writer Unit
  | none => Writer.u8 0
  | some deletedAtMs => do
    Writer.u8 1
    Writer.u64 deletedAtMs

/-- The body of the loop of `EncodeVersionedManifest`. -/
def writeVersionedEntry (entry : VersionedManifestEntry) : Writer Unit :=
  if invalidEntry entry then Exec.raise (.invalidArgument "invalid versioned manifest entry")
  else do
    Writer.string entry.relativePath
    Writer.u8 (kindCode entry.kind)
    Writer.u64 entry.size
    Writer.string entry.contentHash
    Writer.string entry.versionId
    Writer.string entry.originDeviceId
    Writer.u64 entry.logicalClock
    Writer.string entry.parentVersionId
    writeDeletedAt entry.deletedAtMs

/-- `EncodeVersionedManifest`. -/
def encodeVersionedManifest (manifest : VersionedManifest) : Except Error Bytes := Codec.written <|
  if manifest.entries.length > maxCount then
    Exec.raise (.invalidArgument "too many versioned manifest entries")
  else do
    Writer.u64 manifest.revision
    Writer.counted writeVersionedEntry manifest.entries

/-- The flag of the optional timestamp, and the timestamp. -/
def readDeletedAt : Reader (Option UInt64) := do
  let hasDeletedAt ← Reader.u8
  if hasDeletedAt > 1 then Exec.raise (.invalidArgument "invalid tombstone timestamp flag")
  else if hasDeletedAt = 1 then do
    let deletedAtMs ← Reader.u64
    pure (some deletedAtMs)
  else pure none

/-- The body of the loop of `DecodeVersionedManifest`. -/
def readVersionedEntry : Reader VersionedManifestEntry := do
  let relativePath ← Reader.string
  let code ← Reader.u8
  let size ← Reader.u64
  let contentHash ← Reader.string
  let versionId ← Reader.string
  let originDeviceId ← Reader.string
  let logicalClock ← Reader.u64
  let parentVersionId ← Reader.string
  let deletedAtMs ← readDeletedAt
  let kind ← Codec.ofOption (.invalidArgument "invalid versioned manifest entry") (kindOf code)
  let entry : VersionedManifestEntry := ⟨relativePath, kind, size, contentHash, versionId,
    originDeviceId, logicalClock, parentVersionId, deletedAtMs⟩
  if invalidEntry entry then Exec.raise (.invalidArgument "invalid versioned manifest entry")
  else pure entry

/-- `DecodeVersionedManifest`. -/
def decodeVersionedManifest (payload : Bytes) : Except Error VersionedManifest := Codec.readFrom (do
  let revision ← Reader.u64
  let entries ← Reader.counted (.invalidArgument "too many versioned manifest entries")
    readVersionedEntry
  Reader.finish
  pure ⟨revision, entries⟩) payload

/-- The bytes of an optional timestamp. -/
def spellDeletedAt : Option UInt64 → Bytes
  | none => [0]
  | some deletedAtMs => 1 :: Codec.littleEndian 8 deletedAtMs.toNat

/-- The bytes of an entry. -/
def spellVersionedEntry (entry : VersionedManifestEntry) : Bytes :=
  spell entry.relativePath ++ ([kindCode entry.kind] ++ (Codec.littleEndian 8 entry.size.toNat ++
    (spell entry.contentHash ++ (spell entry.versionId ++ (spell entry.originDeviceId ++
      (Codec.littleEndian 8 entry.logicalClock.toNat ++ (spell entry.parentVersionId ++
        spellDeletedAt entry.deletedAtMs)))))))

/-- The texts of an entry are short enough, and the entry is valid. -/
def fitsVersionedEntry (entry : VersionedManifestEntry) : Prop :=
  ¬ invalidEntry entry ∧ entry.relativePath.length < 2 ^ 16 ∧ entry.contentHash.length < 2 ^ 16 ∧
    entry.versionId.length < 2 ^ 16 ∧ entry.originDeviceId.length < 2 ^ 16 ∧
      entry.parentVersionId.length < 2 ^ 16

theorem writes_deletedAt (deletedAtMs : Option UInt64) :
    Writes (writeDeletedAt deletedAtMs) True (spellDeletedAt deletedAtMs) := by
  cases deletedAtMs with
  | none => exact writes_u8 0
  | some t =>
    have h := (writes_u8 1).bind (writes_u64 t)
    simp only [true_and] at h
    exact h

theorem reads_deletedAt : Reads readDeletedAt spellDeletedAt fun _ => True := by
  intro b deletedAtMs rest
  simp only [readDeletedAt, reads_u8.bind_iff, Codec.ite_raise_iff]
  constructor
  · rintro ⟨flag, -, tail, rfl, hflag, h⟩
    by_cases hone : flag = 1
    · rw [if_pos hone, reads_u64.bind_iff] at h
      obtain ⟨t, -, tail', rfl, h⟩ := h
      obtain ⟨rfl, rfl⟩ := Codec.pure_iff.mp h
      exact ⟨trivial, by simp [spellDeletedAt, hone]⟩
    · rw [if_neg hone] at h
      obtain ⟨rfl, rfl⟩ := Codec.pure_iff.mp h
      have hzero : flag = 0 := by
        rw [not_lt, UInt8.le_iff_toNat_le] at hflag
        rw [← UInt8.toNat_inj] at hone ⊢
        have hle : flag.toNat ≤ 1 := hflag
        have hne : flag.toNat ≠ 1 := hone
        show flag.toNat = 0
        omega
      exact ⟨trivial, by simp [spellDeletedAt, hzero]⟩
  · rintro ⟨-, rfl⟩
    cases deletedAtMs with
    | none =>
      refine ⟨0, trivial, rest, rfl, by decide, ?_⟩
      rw [if_neg (by decide)]
      exact Codec.pure_iff.mpr ⟨rfl, rfl⟩
    | some t =>
      refine ⟨1, trivial, Codec.littleEndian 8 t.toNat ++ rest, rfl, by decide, ?_⟩
      rw [if_pos rfl, reads_u64.bind_iff]
      exact ⟨t, trivial, rest, rfl, Codec.pure_iff.mpr ⟨rfl, rfl⟩⟩

theorem writes_versionedEntry (entry : VersionedManifestEntry) :
    Writes (writeVersionedEntry entry) (fitsVersionedEntry entry) (spellVersionedEntry entry) := by
  have h := ((writes_string entry.relativePath).bind ((writes_u8 (kindCode entry.kind)).bind
    ((writes_u64 entry.size).bind ((writes_string entry.contentHash).bind
      ((writes_string entry.versionId).bind ((writes_string entry.originDeviceId).bind
        ((writes_u64 entry.logicalClock).bind ((writes_string entry.parentVersionId).bind
          (writes_deletedAt entry.deletedAtMs))))))))).unless (c := invalidEntry entry)
            (e := .invalidArgument "invalid versioned manifest entry")
  simp only [true_and, and_true] at h
  exact h

theorem reads_versionedEntry : Reads readVersionedEntry spellVersionedEntry fitsVersionedEntry := by
  intro b entry rest
  simp only [readVersionedEntry, reads_string.bind_iff, reads_u8.bind_iff, reads_u64.bind_iff,
    reads_deletedAt.bind_iff, Codec.ofOption_bind_iff, Codec.ite_raise_iff, Codec.pure_iff,
    kindOf_eq_some_iff]
  constructor
  · rintro ⟨path, hpath, _, rfl, _, -, _, rfl, size, -, _, rfl, hash, hhash, _, rfl, version,
      hversion, _, rfl, origin, horigin, _, rfl, clock, -, _, rfl, parent, hparent, _, rfl,
      deletedAtMs, -, _, rfl, kind, rfl, hvalid, rfl, rfl⟩
    exact ⟨⟨hvalid, hpath, hhash, hversion, horigin, hparent⟩, by simp [spellVersionedEntry]⟩
  · rintro ⟨⟨hvalid, hpath, hhash, hversion, horigin, hparent⟩, rfl⟩
    refine ⟨entry.relativePath, hpath, _, ?_, kindCode entry.kind, trivial, _, rfl, entry.size,
      trivial, _, rfl, entry.contentHash, hhash, _, rfl, entry.versionId, hversion, _, rfl,
      entry.originDeviceId, horigin, _, rfl, entry.logicalClock, trivial, _, rfl,
      entry.parentVersionId, hparent, _, rfl, entry.deletedAtMs, trivial, rest, rfl,
        entry.kind, rfl,
      hvalid, rfl, rfl⟩
    simp [spellVersionedEntry]

/-- The bytes of a versioned manifest. -/
def spellVersionedManifest (manifest : VersionedManifest) : Bytes :=
  Codec.littleEndian 8 manifest.revision.toNat ++ spellCounted spellVersionedEntry manifest.entries

/-- What a versioned manifest has to satisfy for both codecs. -/
def admitsVersionedManifest (manifest : VersionedManifest) : Prop :=
  manifest.entries.length ≤ maxCount ∧ ∀ entry ∈ manifest.entries, fitsVersionedEntry entry

theorem decodeVersionedManifest_eq_ok_iff (payload : Bytes) (manifest : VersionedManifest) :
    decodeVersionedManifest payload = .ok manifest ↔
      admitsVersionedManifest manifest ∧ payload = spellVersionedManifest manifest := by
  rw [decodeVersionedManifest, Codec.readFrom_iff]
  simp only [reads_u64.bind_iff, (reads_counted reads_versionedEntry).bind_iff, Reader.finish,
    Codec.finish_bind_iff, Codec.pure_iff]
  constructor
  · rintro ⟨_, revision, -, _, rfl, entries, hentries, _, rfl, rfl, rfl, rfl⟩
    exact ⟨hentries, by rw [spellVersionedManifest, List.append_nil]⟩
  · rintro ⟨hentries, rfl⟩
    exact ⟨[], manifest.revision, trivial, _, rfl, manifest.entries, hentries, [],
      by rw [List.append_nil], rfl, rfl, rfl⟩

/-- **VERSION_MANIFEST is canonical.** -/
theorem versionedManifest_canonical :
    Codec.Canonical encodeVersionedManifest decodeVersionedManifest admitsVersionedManifest :=
  .of_writes (fun _ m => (writes_counted writes_versionedEntry m.revision m.entries).written_iff)
    (fun _ h => h) decodeVersionedManifest_eq_ok_iff

/-! ## CHUNK

The one format whose decoder looks at more than the shape of the bytes: a chunk carries the hash of
its content and is refused if the two do not fit.  The encoder does not check this, since it has
just computed the hash, so `admitsChunk` is the decoder's condition and the encoder takes more.

Chunks are most of the traffic, and `EncodeChunkFrame` writes the frame around one without building
the payload first.  That the fast path writes the same bytes is `encodeChunkFrame_eq`. -/

/-- `protocol::Chunk`. -/
structure Chunk where
  transferId : Block 16
  fileHash : Block 32
  offset : UInt64
  chunkHash : Block 32
  bytes : Bytes
  deriving DecidableEq

/-- What `EncodeChunk` and `EncodeChunkFrame` write of a chunk. -/
def writeChunk (chunk : Chunk) : Writer Unit := do
  Writer.bytes chunk.transferId.1
  Writer.bytes chunk.fileHash.1
  Writer.u64 chunk.offset
  Writer.u32 (UInt32.ofNat chunk.bytes.length)
  Writer.bytes chunk.chunkHash.1
  Writer.bytes chunk.bytes

/-- `EncodeChunk`. -/
def encodeChunk (chunk : Chunk) : Except Error Bytes := Codec.written <|
  if chunk.bytes.length > logicalChunkSize then
    Exec.raise (.invalidArgument "chunk exceeds logical chunk size")
  else writeChunk chunk

/-- `EncodeChunkFrame`. -/
def encodeChunkFrame (chunk : Chunk) (requestId : UInt64) : Except Error Bytes := Codec.written <|
  if chunk.bytes.length > logicalChunkSize then
    Exec.raise (.invalidArgument "chunk exceeds logical chunk size")
  else do
    let payloadSize := chunk.transferId.1.length + chunk.fileHash.1.length + 8 + 4 +
      chunk.chunkHash.1.length + chunk.bytes.length
    header .chunk requestId payloadSize
    writeChunk chunk

section Chunk

variable (testHash : Bytes → Block 32)

/-- `DecodeChunk`, with the hash function that `TestHash` stands for. -/
def decodeChunk (payload : Bytes) : Except Error Chunk := Codec.readFrom (do
  let transferId ← Reader.block 16
  let fileHash ← Reader.block 32
  let offset ← Reader.u64
  let length ← Reader.u32
  if length.toNat > logicalChunkSize then Exec.raise (.invalidArgument "chunk too large")
  else do
    let chunkHash ← Reader.block 32
    let bytes ← Reader.bytes length.toNat
    Reader.finish
    if testHash bytes ≠ chunkHash then Exec.raise (.invalidArgument "chunk hash mismatch")
    else pure ⟨transferId, fileHash, offset, chunkHash, bytes⟩) payload

/-- What a chunk has to satisfy for both codecs.  `EncodeChunk` does not look at the hash, so it
writes some chunks that no decoder takes; no engine builds one. -/
def admitsChunk (chunk : Chunk) : Prop :=
  testHash chunk.bytes = chunk.chunkHash ∧ chunk.bytes.length ≤ logicalChunkSize

/-- The bytes of a chunk. -/
def spellChunk (chunk : Chunk) : Bytes :=
  chunk.transferId.1 ++ (chunk.fileHash.1 ++ (Codec.littleEndian 8 chunk.offset.toNat ++
    (Codec.littleEndian 4 chunk.bytes.length ++ (chunk.chunkHash.1 ++ chunk.bytes))))

@[simp] theorem length_spellChunk (chunk : Chunk) :
    (spellChunk chunk).length = chunk.transferId.1.length + chunk.fileHash.1.length + 8 + 4 +
      chunk.chunkHash.1.length + chunk.bytes.length := by
  simp only [spellChunk, List.length_append, Codec.length_littleEndian]
  omega

theorem writes_chunk {chunk : Chunk} (h : chunk.bytes.length ≤ logicalChunkSize) :
    Writes (writeChunk chunk) True (spellChunk chunk) := by
  have hwrites := (writes_bytes chunk.transferId.1).bind ((writes_bytes chunk.fileHash.1).bind
    ((writes_u64 chunk.offset).bind ((writes_u32 (UInt32.ofNat chunk.bytes.length)).bind
      ((writes_bytes chunk.chunkHash.1).bind (writes_bytes chunk.bytes)))))
  rw [toNat_ofNat_of_le h (by decide)] at hwrites
  simp only [and_true] at hwrites
  exact hwrites

theorem encodeChunk_eq_ok_iff {chunk : Chunk} {payload : Bytes} :
    encodeChunk chunk = .ok payload ↔
      chunk.bytes.length ≤ logicalChunkSize ∧ payload = spellChunk chunk := by
  by_cases hlong : chunk.bytes.length > logicalChunkSize
  · rw [encodeChunk, if_pos hlong]
    exact ⟨nofun, fun h => absurd h.1 (not_le.mpr hlong)⟩
  · rw [encodeChunk, if_neg hlong, (writes_chunk (not_lt.mp hlong)).written_iff]
    exact and_congr_left fun _ => iff_of_true trivial (not_lt.mp hlong)

theorem decodeChunk_eq_ok_iff (payload : Bytes) (chunk : Chunk) :
    decodeChunk testHash payload = .ok chunk ↔
      admitsChunk testHash chunk ∧ payload = spellChunk chunk := by
  rw [decodeChunk, Codec.readFrom_iff]
  simp only [(reads_block _).bind_iff, reads_u64.bind_iff, reads_u32.bind_iff, Codec.ite_raise_iff,
    (reads_bytes _).bind_iff, Reader.finish, Codec.finish_bind_iff, Codec.pure_iff, not_lt, not_not]
  constructor
  · rintro ⟨_, transferId, -, _, rfl, fileHash, -, _, rfl, offset, -, _, rfl, length, -, _, rfl,
      hlength, chunkHash, -, _, rfl, bytes, hbytes, _, rfl, rfl, hhash, rfl, rfl⟩
    refine ⟨⟨hhash, hbytes ▸ hlength⟩, ?_⟩
    simp [spellChunk, hbytes]
  · rintro ⟨⟨hhash, hlength⟩, rfl⟩
    have hcount := toNat_ofNat_of_le hlength (by decide)
    refine ⟨[], chunk.transferId, trivial, _, rfl, chunk.fileHash, trivial, _, rfl, chunk.offset,
      trivial, _, rfl, UInt32.ofNat chunk.bytes.length, trivial, _, by rw [hcount],
        hcount.le.trans hlength,
      chunk.chunkHash, trivial, _, rfl, chunk.bytes, hcount.symm, [], ?_, rfl, hhash, rfl, rfl⟩
    rw [id, List.append_nil]

/-- **CHUNK is canonical.** -/
theorem chunk_canonical : Codec.Canonical encodeChunk (decodeChunk testHash)
    (admitsChunk testHash) :=
  .of_writes (fun _ _ => encodeChunk_eq_ok_iff) (fun _ h => h.2) (decodeChunk_eq_ok_iff testHash)

end Chunk

/-- **The fast path writes the same frame.**  It writes header and payload into one buffer, so the
length has to be known beforehand. -/
theorem encodeChunkFrame_eq (chunk : Chunk) (requestId : UInt64) :
    encodeChunkFrame chunk requestId =
      (encodeChunk chunk).bind fun payload => encodeFrame ⟨.chunk, requestId, payload⟩ := by
  by_cases hlong : chunk.bytes.length > logicalChunkSize
  · rw [encodeChunkFrame, encodeChunk, if_pos hlong, if_pos hlong]
    rfl
  · have hshort := not_lt.mp hlong
    have hpayload : encodeChunk chunk = .ok (spellChunk chunk) :=
      encodeChunk_eq_ok_iff.mpr ⟨hshort, rfl⟩
    have hsize : (spellChunk chunk).length ≤ maxFrameSize - frameHeaderSize := by
      have := chunk.transferId.2
      have := chunk.fileHash.2
      have := chunk.chunkHash.2
      rw [length_spellChunk]
      simp only [logicalChunkSize, maxFrameSize, frameHeaderSize] at *
      omega
    have hframe : encodeFrame ⟨.chunk, requestId, spellChunk chunk⟩ =
        .ok (spellFrame ⟨.chunk, requestId, spellChunk chunk⟩) :=
      encodeFrame_eq_ok_iff.mpr ⟨hsize, rfl⟩
    rw [hpayload, Except.bind, hframe, encodeChunkFrame, if_neg hlong]
    refine ((writes_header _ _ _).bind (writes_chunk hshort)).written_iff.mpr
      ⟨⟨trivial, trivial⟩, ?_⟩
    rw [← length_spellChunk, toNat_ofNat_of_le hsize (by decide), spellFrame]

/-! ## FILE_REQUEST

The ranges of a request have to be non-empty, in order and disjoint, and none may run over the end
of the numbers.  Both codecs check this range by range with the end of the previous one in a
variable, which is why the condition is a recursive one here and not a statement about all pairs. -/

/-- `protocol::ChunkRange`. -/
structure ChunkRange where
  firstChunk : UInt64
  chunkCount : UInt32
  deriving DecidableEq

/-- `protocol::FileRequest`. -/
structure FileRequest where
  transferId : Block 16
  fileHash : Block 32
  missingRanges : List ChunkRange
  deriving DecidableEq

/-- The check that both codecs make on a range; `previousEnd` is the end of the range before. -/
def invalidRange (previousEnd : UInt64) (range : ChunkRange) : Prop :=
  range.chunkCount = 0 ∨ range.firstChunk < previousEnd ∨
    range.chunkCount.toNat > 2 ^ 64 - 1 - range.firstChunk.toNat

instance (previousEnd : UInt64) (range : ChunkRange) : Decidable (invalidRange previousEnd range) :=
  inferInstanceAs (Decidable (_ ∨ _))

/-- The end of a range. -/
def ChunkRange.stop (range : ChunkRange) : UInt64 := range.firstChunk + range.chunkCount.toUInt64

/-- The loop of `EncodeFileRequest`. -/
def writeRanges (previousEnd : UInt64) : List ChunkRange → Writer Unit
  | [] => pure ()
  | range :: rest =>
    if invalidRange previousEnd range then Exec.raise (.invalidArgument "invalid missing range")
    else do
      Writer.u64 range.firstChunk
      Writer.u32 range.chunkCount
      writeRanges range.stop rest

/-- `EncodeFileRequest`. -/
def encodeFileRequest (request : FileRequest) : Except Error Bytes := Codec.written <|
  if request.missingRanges = [] ∨ request.missingRanges.length > maxCount then
    Exec.raise (.invalidArgument "invalid missing ranges")
  else do
    Writer.bytes request.transferId.1
    Writer.bytes request.fileHash.1
    Writer.u32 (UInt32.ofNat request.missingRanges.length)
    writeRanges 0 request.missingRanges

/-- The loop of `DecodeFileRequest`. -/
def readRanges (previousEnd : UInt64) : Nat → Reader (List ChunkRange)
  | 0 => pure []
  | n + 1 => do
    let first ← Reader.u64
    let length ← Reader.u32
    let range : ChunkRange := ⟨first, length⟩
    if invalidRange previousEnd range then Exec.raise (.invalidArgument "invalid missing range")
    else do
      let rest ← readRanges range.stop n
      pure (range :: rest)

/-- `DecodeFileRequest`. -/
def decodeFileRequest (payload : Bytes) : Except Error FileRequest := Codec.readFrom (do
  let transferId ← Reader.block 16
  let fileHash ← Reader.block 32
  let count ← Reader.u32
  if count = 0 ∨ count.toNat > maxCount then Exec.raise (.invalidArgument "invalid missing ranges")
  else do
    let missingRanges ← readRanges 0 count.toNat
    Reader.finish
    pure ⟨transferId, fileHash, missingRanges⟩) payload

/-- The ranges pass the checks of the loops. -/
def validRanges (previousEnd : UInt64) : List ChunkRange → Prop
  | [] => True
  | range :: rest => ¬ invalidRange previousEnd range ∧ validRanges range.stop rest

/-- The bytes of a range. -/
def spellRange (range : ChunkRange) : Bytes :=
  Codec.littleEndian 8 range.firstChunk.toNat ++ Codec.littleEndian 4 range.chunkCount.toNat

theorem writes_ranges (ranges : List ChunkRange) (previousEnd : UInt64) :
    Writes (writeRanges previousEnd ranges) (validRanges previousEnd ranges)
      (ranges.flatMap spellRange) := by
  induction ranges generalizing previousEnd with
  | nil =>
    intro b b'
    rw [writeRanges, Codec.pure_iff]
    simp [validRanges]
  | cons range rest ih =>
    have h := ((writes_u64 range.firstChunk).bind ((writes_u32 range.chunkCount).bind
      (ih range.stop))).unless (c := invalidRange previousEnd range)
        (e := .invalidArgument "invalid missing range")
    simp only [true_and] at h
    rw [writeRanges, validRanges, List.flatMap_cons, spellRange, List.append_assoc]
    exact h

theorem reads_ranges (n : Nat) (previousEnd : UInt64) :
    Reads (readRanges previousEnd n) (fun ranges => ranges.flatMap spellRange)
      fun ranges => ranges.length = n ∧ validRanges previousEnd ranges := by
  induction n generalizing previousEnd with
  | zero =>
    intro b ranges rest
    rw [readRanges, Codec.pure_iff]
    constructor
    · rintro ⟨rfl, rfl⟩
      simp [validRanges]
    · rintro ⟨⟨hlength, -⟩, rfl⟩
      rw [List.length_eq_zero_iff.mp hlength]
      simp
  | succ n ih =>
    intro b ranges rest
    simp only [readRanges, reads_u64.bind_iff, reads_u32.bind_iff, Codec.ite_raise_iff,
      (ih _).bind_iff, Codec.pure_iff]
    constructor
    · rintro ⟨first, -, _, rfl, length, -, _, rfl, hvalid, ranges', ⟨hlength, hall⟩, _, rfl,
        rfl, rfl⟩
      exact ⟨⟨by rw [List.length_cons, hlength], hvalid, hall⟩, by simp [spellRange]⟩
    · rintro ⟨⟨hlength, hall⟩, rfl⟩
      cases ranges with
      | nil => cases hlength
      | cons range ranges =>
        refine ⟨range.firstChunk, trivial, _, ?_, range.chunkCount, trivial, _, rfl, hall.1, ranges,
          ⟨Nat.succ.inj hlength, hall.2⟩, rest, rfl, rfl, rfl⟩
        simp [spellRange]

/-- The bytes of a request. -/
def spellFileRequest (request : FileRequest) : Bytes :=
  request.transferId.1 ++ (request.fileHash.1 ++ spellCounted spellRange request.missingRanges)

/-- What a request has to satisfy for both codecs. -/
def admitsFileRequest (request : FileRequest) : Prop :=
  (request.missingRanges ≠ [] ∧ request.missingRanges.length ≤ maxCount) ∧
    validRanges 0 request.missingRanges

theorem encodeFileRequest_eq_ok_iff (payload : Bytes) (request : FileRequest) :
    encodeFileRequest request = .ok payload ↔
      admitsFileRequest request ∧ payload = spellFileRequest request := by
  have hwrites := ((writes_bytes request.transferId.1).bind ((writes_bytes request.fileHash.1).bind
    ((writes_u32 (UInt32.ofNat request.missingRanges.length)).bind
      (writes_ranges request.missingRanges 0)))).unless
        (c := request.missingRanges = [] ∨ request.missingRanges.length > maxCount)
        (e := .invalidArgument "invalid missing ranges")
  simp only [true_and, not_or, not_lt] at hwrites
  rw [encodeFileRequest, hwrites.written_iff]
  refine and_congr_right fun h => ?_
  rw [toNat_ofNat_of_le h.1.2 (by decide), spellFileRequest, spellCounted]

theorem decodeFileRequest_eq_ok_iff (payload : Bytes) (request : FileRequest) :
    decodeFileRequest payload = .ok request ↔
      admitsFileRequest request ∧ payload = spellFileRequest request := by
  rw [decodeFileRequest, Codec.readFrom_iff]
  simp only [(reads_block _).bind_iff, reads_u32.bind_iff, Codec.ite_raise_iff,
    (reads_ranges _ _).bind_iff, Reader.finish, Codec.finish_bind_iff, Codec.pure_iff,
      not_or, not_lt]
  constructor
  · rintro ⟨_, transferId, -, _, rfl, fileHash, -, _, rfl, count, -, _, rfl,
      ⟨hzero, hcount⟩, ranges,
      ⟨hlength, hall⟩, _, rfl, rfl, rfl, rfl⟩
    refine ⟨⟨⟨?_, hlength ▸ hcount⟩, hall⟩, by simp [spellFileRequest, spellCounted, hlength]⟩
    rintro rfl
    exact hzero (UInt32.toNat_inj.mp hlength.symm)
  · rintro ⟨⟨⟨hne, hbound⟩, hall⟩, rfl⟩
    have hcount := toNat_ofNat_of_le hbound (by decide)
    refine ⟨[], request.transferId, trivial, _, rfl, request.fileHash, trivial, _, rfl,
      UInt32.ofNat request.missingRanges.length, trivial, _, by rw [hcount]; rfl,
      ⟨?_, hcount.le.trans hbound⟩, request.missingRanges, ⟨hcount.symm, hall⟩, [],
      by rw [List.append_nil], rfl, rfl, rfl⟩
    intro hzero
    rw [hzero] at hcount
    exact hne (List.length_eq_zero_iff.mp hcount.symm)

/-- **FILE_REQUEST is canonical.** -/
theorem fileRequest_canonical :
    Codec.Canonical encodeFileRequest decodeFileRequest admitsFileRequest :=
  .of_writes encodeFileRequest_eq_ok_iff (fun _ h => h) decodeFileRequest_eq_ok_iff

/-! ## CANCEL -/

/-- `protocol::Cancel`. -/
structure Cancel where
  transferId : Block 16
  reason : Bytes
  deriving DecidableEq

/-- `EncodeCancel`. -/
def encodeCancel (cancel : Cancel) : Except Error Bytes := Codec.written <|
  if cancel.reason = [] then Exec.raise (.invalidArgument "cancel reason is required")
  else do
    Writer.bytes cancel.transferId.1
    Writer.string cancel.reason

/-- `DecodeCancel`. -/
def decodeCancel (payload : Bytes) : Except Error Cancel := Codec.readFrom (do
  let transferId ← Reader.block 16
  let reason ← Reader.string
  if reason = [] then Exec.raise (.invalidArgument "cancel reason is required")
  else do
    Reader.finish
    pure ⟨transferId, reason⟩) payload

/-- The bytes of a CANCEL. -/
def spellCancel (cancel : Cancel) : Bytes := cancel.transferId.1 ++ spell cancel.reason

/-- What a CANCEL has to satisfy for both codecs. -/
def admitsCancel (cancel : Cancel) : Prop := cancel.reason ≠ [] ∧ cancel.reason.length < 2 ^ 16

theorem encodeCancel_eq_ok_iff (payload : Bytes) (cancel : Cancel) :
    encodeCancel cancel = .ok payload ↔ admitsCancel cancel ∧ payload = spellCancel cancel := by
  have hwrites := ((writes_bytes cancel.transferId.1).bind (writes_string cancel.reason)).unless
    (c := cancel.reason = []) (e := .invalidArgument "cancel reason is required")
  simp only [true_and] at hwrites
  exact hwrites.written_iff

theorem decodeCancel_eq_ok_iff (payload : Bytes) (cancel : Cancel) :
    decodeCancel payload = .ok cancel ↔ admitsCancel cancel ∧ payload = spellCancel cancel := by
  rw [decodeCancel, Codec.readFrom_iff]
  simp only [(reads_block _).bind_iff, reads_string.bind_iff, Codec.ite_raise_iff, Reader.finish,
    Codec.finish_bind_iff, Codec.pure_iff]
  constructor
  · rintro ⟨_, transferId, -, _, rfl, reason, hreason, _, rfl, hne, rfl, rfl, rfl⟩
    exact ⟨⟨hne, hreason⟩, by rw [spellCancel, List.append_nil]⟩
  · rintro ⟨⟨hne, hreason⟩, rfl⟩
    exact ⟨[], cancel.transferId, trivial, _, rfl, cancel.reason, hreason, [],
      by rw [List.append_nil], hne, rfl, rfl, rfl⟩

/-- **CANCEL is canonical.** -/
theorem cancel_canonical : Codec.Canonical encodeCancel decodeCancel admitsCancel :=
  .of_writes encodeCancel_eq_ok_iff (fun _ h => h) decodeCancel_eq_ok_iff

/-! ## The ignore policy -/

/-- `protocol::IgnorePolicyMessage`. -/
structure IgnorePolicyMessage where
  proposalId : Bytes
  baseHash : Bytes
  rules : Bytes
  source : Bytes
  deriving DecidableEq

/-- The check that both codecs make. -/
def invalidPolicy (policy : IgnorePolicyMessage) : Prop :=
  policy.rules.length > 16384 ∨ policy.baseHash.length ≠ 64 ∨ policy.proposalId.length > 64

instance (policy : IgnorePolicyMessage) : Decidable (invalidPolicy policy) :=
  inferInstanceAs (Decidable (_ ∨ _))

/-- `EncodeIgnorePolicy`. -/
def encodeIgnorePolicy (policy : IgnorePolicyMessage) : Except Error Bytes := Codec.written <|
  if invalidPolicy policy then Exec.raise (.invalidArgument "invalid ignore policy message")
  else do
    Writer.string policy.proposalId
    Writer.string policy.baseHash
    Writer.string policy.rules
    Writer.string policy.source

/-- `DecodeIgnorePolicy`. -/
def decodeIgnorePolicy (payload : Bytes) : Except Error IgnorePolicyMessage := Codec.readFrom (do
  let proposalId ← Reader.string
  let baseHash ← Reader.string
  let rules ← Reader.string
  let source ← Reader.string
  Reader.finish
  let policy : IgnorePolicyMessage := ⟨proposalId, baseHash, rules, source⟩
  if invalidPolicy policy then Exec.raise (.invalidArgument "invalid ignore policy message")
  else pure policy) payload

/-- The bytes of an ignore policy. -/
def spellIgnorePolicy (policy : IgnorePolicyMessage) : Bytes :=
  spell policy.proposalId ++ (spell policy.baseHash ++ (spell policy.rules ++ spell policy.source))

/-- What an ignore policy has to satisfy for both codecs. -/
def admitsIgnorePolicy (policy : IgnorePolicyMessage) : Prop :=
  ¬ invalidPolicy policy ∧ policy.proposalId.length < 2 ^ 16 ∧ policy.baseHash.length < 2 ^ 16 ∧
    policy.rules.length < 2 ^ 16 ∧ policy.source.length < 2 ^ 16

theorem encodeIgnorePolicy_eq_ok_iff (payload : Bytes) (policy : IgnorePolicyMessage) :
    encodeIgnorePolicy policy = .ok payload ↔
      admitsIgnorePolicy policy ∧ payload = spellIgnorePolicy policy := by
  have hwrites := ((writes_string policy.proposalId).bind ((writes_string policy.baseHash).bind
    ((writes_string policy.rules).bind (writes_string policy.source)))).unless
      (c := invalidPolicy policy) (e := .invalidArgument "invalid ignore policy message")
  exact hwrites.written_iff

theorem decodeIgnorePolicy_eq_ok_iff (payload : Bytes) (policy : IgnorePolicyMessage) :
    decodeIgnorePolicy payload = .ok policy ↔
      admitsIgnorePolicy policy ∧ payload = spellIgnorePolicy policy := by
  rw [decodeIgnorePolicy, Codec.readFrom_iff]
  simp only [reads_string.bind_iff, Codec.ite_raise_iff, Reader.finish, Codec.finish_bind_iff,
    Codec.pure_iff]
  constructor
  · rintro ⟨_, proposalId, hproposal, _, rfl, baseHash, hbase, _, rfl, rules, hrules, _,
      rfl, source,
      hsource, _, rfl, rfl, hvalid, rfl, rfl⟩
    exact ⟨⟨hvalid, hproposal, hbase, hrules, hsource⟩, by rw [spellIgnorePolicy, List.append_nil]⟩
  · rintro ⟨⟨hvalid, hproposal, hbase, hrules, hsource⟩, rfl⟩
    exact ⟨[], policy.proposalId, hproposal, _, rfl, policy.baseHash, hbase, _, rfl, policy.rules,
      hrules, _, rfl, policy.source, hsource, [], by rw [List.append_nil], rfl, hvalid, rfl, rfl⟩

/-- **The ignore policy is canonical.** -/
theorem ignorePolicy_canonical :
    Codec.Canonical encodeIgnorePolicy decodeIgnorePolicy admitsIgnorePolicy :=
  .of_writes encodeIgnorePolicy_eq_ok_iff (fun _ h => h) decodeIgnorePolicy_eq_ok_iff

/-! ## The format as a whole -/

/-- **Every format of the protocol is canonical.**  Each encoder writes every message that satisfies
the decoder's checks and its own limits, and each decoder accepts a byte string exactly when it is
what the encoder writes for the message returned.  The fast path for chunks and the view of a frame
agree with the general functions. -/
theorem wire_canonical (testHash : Bytes → Block 32) :
    Codec.Canonical encodeFrame decodeFrame admitsFrame ∧
    Codec.Canonical encodeHello decodeHello admitsHello ∧
    Codec.Canonical encodeManifest decodeManifest admitsManifest ∧
    Codec.Canonical encodeVersionedManifest decodeVersionedManifest admitsVersionedManifest ∧
    Codec.Canonical encodeChunk (decodeChunk testHash) (admitsChunk testHash) ∧
    Codec.Canonical encodeFileRequest decodeFileRequest admitsFileRequest ∧
    Codec.Canonical encodeCancel decodeCancel admitsCancel ∧
    Codec.Canonical encodeIgnorePolicy decodeIgnorePolicy admitsIgnorePolicy ∧
    (∀ chunk id, encodeChunkFrame chunk id =
      (encodeChunk chunk).bind fun payload => encodeFrame ⟨.chunk, id, payload⟩) ∧
    ∀ wire, decodeFrame wire =
      (decodeFrameView wire).map fun view => ⟨view.type, view.requestId, view.payload⟩ :=
  ⟨frame_canonical, hello_canonical, manifest_canonical, versionedManifest_canonical,
    chunk_canonical testHash, fileRequest_canonical, cancel_canonical, ignorePolicy_canonical,
    encodeChunkFrame_eq, fun _ => rfl⟩

end Wire

end VeritasSync
