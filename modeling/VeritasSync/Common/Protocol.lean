import VeritasSync.Storage.Database

/-!
# Content hashes and protocol frames

The frames two bidirectional nodes exchange, as the values the codecs of `protocol.cpp` produce.
What the decoders reject is still here: a frame that does not decode is a frame (`malformed`,
`undecodable`) whose receipt throws the decoder's exception, and the entry checks the manifest codec
makes on both sides are `validEntry`.

A content hash is a value of a type `H` that comes with a function `blake3` from byte strings; the
engine only compares hashes for equality and sorts by them.

There are two models of a message in this development, and they meet in the codecs.  The ones here
are what a node works with: texts that have been decoded, kinds that are an enumeration, hashes that
are values of `H`.  The ones of `VeritasSync.Common.Wire` are the bytes of the same messages.
Splitting them keeps the proofs about synchronization free of offsets and lengths, and keeps the
proofs about the format free of everything a node does with a message.

The hash function is a parameter and nothing is assumed about it.  Statements that need two contents
with the same hash to be the same content say so where they need it, and most do not: a file that
was announced with a hash and arrives with that hash is all the engine can see.
-/

set_option autoImplicit false

namespace VeritasSync

/-- `common::ContentHash` with `common::Blake3`: hashes, their order, and the hash of a byte
string. -/
class ContentHash (H : Type) extends LinearOrder H where
  blake3 : Bytes → H

export ContentHash (blake3)

/-- `protocol::kLogicalChunkSize`: files are transferred in pieces of this size. -/
def logicalChunkSize : Nat := 256 * 1024

/-- `protocol::Channel`: frames about the session, and frames with content. -/
inductive Channel where
  | control
  | bulk
  deriving DecidableEq, Repr

/-- `protocol::Role`: what a device is for a task. -/
inductive Role where
  | source
  | target
  | peer
  deriving DecidableEq, Repr

/-- `protocol::Hello`: a device introduces itself. -/
structure Hello where
  taskId : Bytes
  role : Role
  deviceId : DeviceId
  deviceFingerprint : Bytes
  authorizationDigest : Bytes
  deriving DecidableEq

/-- `protocol::VersionedManifestEntry`.  The kinds are those of a file record.  `contentHash` is
the hash its text decodes to; `none` is the empty text, or one `DecodeHash` rejects.  An empty
`parentVersionId` means that there is no parent. -/
structure VersionedManifestEntry (H : Type) where
  relativePath : Path
  kind : FileKind
  size : Nat
  contentHash : Option H
  versionId : VersionId
  originDeviceId : DeviceId
  logicalClock : Nat
  parentVersionId : VersionId
  deletedAtMs : Option Nat
  deriving DecidableEq

/-- `protocol::VersionedManifest`: the records of a peer with their lineage. -/
structure VersionedManifest (H : Type) where
  revision : UInt64
  entries : List (VersionedManifestEntry H)
  deriving DecidableEq

/-- The checks `EncodeVersionedManifest` and `DecodeVersionedManifest` make on an entry. -/
def validEntry {H : Type} (entry : VersionedManifestEntry H) : Bool :=
  entry.relativePath ≠ [] && entry.versionId ≠ [] && entry.originDeviceId ≠ [] &&
    ((entry.kind = .file) == entry.contentHash.isSome) &&
    (entry.kind = .file || entry.size = 0) &&
    ((entry.kind = .tombstone) == entry.deletedAtMs.isSome)

/-- `EncodeVersionedManifest` and `DecodeVersionedManifest`, as checks. -/
def checkManifest {H : Type} (manifest : VersionedManifest H) : Except Error Unit :=
  if manifest.entries.length > 1000000 then
    .error (.invalidArgument "too many versioned manifest entries")
  else if manifest.entries.all validEntry then .ok ()
  else .error (.invalidArgument "invalid versioned manifest entry")

/-- `protocol::ChunkRange`: chunks in a row. -/
structure ChunkRange where
  firstChunk : Nat
  chunkCount : Nat
  deriving DecidableEq

/-- `protocol::FileRequest`: the chunks of a file that are wanted. -/
structure FileRequest (H : Type) where
  transferId : TransferId
  fileHash : H
  missingRanges : List ChunkRange
  deriving DecidableEq

/-- `protocol::Chunk`: a piece of a file, with the hashes of the piece and of the file. -/
structure Chunk (H : Type) where
  transferId : TransferId
  fileHash : H
  offset : Nat
  chunkHash : H
  bytes : Bytes
  deriving DecidableEq

/-- `protocol::Cancel`: a transfer is given up, for a reason. -/
structure Cancel where
  transferId : TransferId
  reason : String
  deriving DecidableEq

/-- The six policy frame types. -/
inductive PolicyFrame where
  | hello
  | propose
  | ack
  | commit
  | done
  | reject
  deriving DecidableEq, Repr

/-- `protocol::IgnorePolicyMessage`: what all frames about rules carry. -/
structure IgnorePolicyMessage (H : Type) where
  proposalId : Bytes
  baseHash : H
  rules : Bytes
  source : PolicySource
  deriving DecidableEq

/-- A frame on the wire. -/
inductive Frame (H : Type) where
  | hello (message : Hello)
  | policy (type : PolicyFrame) (message : IgnorePolicyMessage H)
  | versionManifest (manifest : VersionedManifest H)
  | fileRequest (request : FileRequest H)
  | chunk (chunk : Chunk H)
  | cancel (cancel : Cancel)
  /-- A frame of one of the types a bidirectional node has no use for. -/
  | unexpected (channel : Channel)
  /-- Bytes that are not a frame, or a HELLO or policy frame whose payload does not decode. -/
  | malformed (error : Error)
  /-- A data frame whose payload does not decode. -/
  | undecodable (error : Error)
  deriving DecidableEq

/-- `IsAllowedOn`: types below 64 travel on the control channel, the others on the bulk channel.
Bytes that are not a frame never get to this check. -/
def Frame.isAllowedOn {H : Type} (channel : Channel) : Frame H → Bool
  | .chunk _ => channel = .bulk
  | .unexpected c => channel = c
  | .malformed _ => true
  | _ => channel = .control

/-- The channel a frame is sent on. -/
def Frame.channel {H : Type} : Frame H → Channel
  | .chunk _ => .bulk
  | .unexpected c => c
  | _ => .control

end VeritasSync
