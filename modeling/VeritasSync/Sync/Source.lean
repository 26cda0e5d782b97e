import VeritasSync.Common.Wire
import VeritasSync.Sync.Delivery
import VeritasSync.Sync.Refresh

/-!
# What a one-way source announces

The frames of one-way synchronisation and the part of a source that `OneWaySyncNode` and
`MultiTargetSource` have in common: the scan that makes a manifest, the manifest as a message that
has to fit into a frame, and the answer to a file request.

A frame that does not decode is a frame here too (`malformed`, `undecodable`), whose receipt throws
the decoder's exception.

One-way synchronization is the simpler of the two protocols.  There are no versions and nothing is
resolved: the source says what there is, and the target makes its folder the same.  All the more
depends on the manifest being right, and on the target not taking a silence for an empty folder.
-/

set_option autoImplicit false

namespace VeritasSync

/-- `what()`. -/
def Error.what : Error → String
  | .invalidArgument message => message
  | .runtimeError message => message
  | .logicError message => message
  | .overflowError message => message
  | .lengthError message => message

namespace OneWay

variable {H : Type}

/-! ## Messages -/

/-- The text of a content hash in a manifest: empty, one that `DecodeHash` decodes, or one that it
rejects with the given exception. -/
inductive HashText (H : Type) where
  | empty
  | hash (hash : H)
  | malformed (error : Error)
  deriving DecidableEq

/-- `protocol::ManifestEntry`: a path as the source has it. -/
structure ManifestEntry (H : Type) where
  relativePath : Path
  size : Nat
  contentHash : HashText H
  deriving DecidableEq

/-- `protocol::Manifest`: all that the source has, under the number of a scan. -/
structure Manifest (H : Type) where
  revision : UInt64
  entries : List (ManifestEntry H)
  deriving DecidableEq

/-- `IsDirectoryEntry`: in this format a directory is an entry without size and hash. -/
def ManifestEntry.isDirectory : ManifestEntry H → Bool
  | ⟨_, _, .empty⟩ => true
  | _ => false

/-- `DecodeHash` of the entry's text. -/
def ManifestEntry.decodeHash (entry : ManifestEntry H) : Except Error H :=
  match entry.contentHash with
  | .empty => .error (.invalidArgument "manifest content hash has invalid length")
  | .hash hash => .ok hash
  | .malformed error => .error error

/-- A frame on the wire. -/
inductive Frame (H : Type) where
  | hello (message : Hello)
  | manifest (manifest : Manifest H)
  | fileRequest (request : FileRequest H)
  | chunk (chunk : Chunk H)
  | cancel (cancel : Cancel)
  /-- A frame of one of the types that one-way synchronisation has no use for. -/
  | unexpected (channel : Channel)
  /-- Bytes that are not a frame, or a HELLO whose payload does not decode. -/
  | malformed (error : Error)
  /-- A frame of another type whose payload does not decode; it travels on the given channel. -/
  | undecodable (channel : Channel) (error : Error)
  deriving DecidableEq

/-- The channel a frame belongs to. -/
def Frame.channel : Frame H → Channel
  | .chunk _ => .bulk
  | .unexpected channel => channel
  | .undecodable channel _ => channel
  | _ => .control

/-- `IsAllowedOn`.  Bytes that are not a frame never get to this check. -/
def Frame.isAllowedOn (channel : Channel) : Frame H → Bool
  | .malformed _ => true
  | frame => frame.channel = channel

/-! ## The size of a manifest -/

/-- The number of characters of a content hash. -/
def HashText.length : HashText H → Nat
  | .empty => 0
  | _ => 64

/-- The bytes of a manifest's payload. -/
def Manifest.wireSize (manifest : Manifest H) : Nat :=
  12 + (manifest.entries.map fun entry =>
    2 + entry.relativePath.length + 8 + 2 + entry.contentHash.length).sum

/-- `EncodeManifest` and `EncodeFrame`, as checks. -/
def Manifest.encode (manifest : Manifest H) : Except Error Unit :=
  if manifest.entries.length > Wire.maxCount then
    .error (.invalidArgument "too many manifest entries")
  else if manifest.entries.any fun entry => entry.relativePath.length > 2 ^ 16 - 1 then
    .error (.invalidArgument "string too long")
  else if manifest.wireSize > Wire.maxFrameSize - Wire.frameHeaderSize then
    .error (.invalidArgument "invalid frame")
  else .ok ()

/-- The check of `EncodeFileRequest` that a request from `MissingChunkRanges` can fail. -/
def encodeFileRequest (request : FileRequest H) : Except Error Unit :=
  if request.missingRanges.length > Wire.maxCount then
    .error (.invalidArgument "invalid missing ranges")
  else .ok ()

/-! ## The manifest of a scan -/

/-- A file of the snapshot comes with its hash. -/
def isHashed (entry : SnapshotEntry H) : Bool := !entry.isFile || entry.contentHash.isSome

/-- The manifest entry of a snapshot entry. -/
def entryOf (entry : SnapshotEntry H) : ManifestEntry H :=
  if entry.isFile then
    ⟨entry.relativePath, entry.size,
      match entry.contentHash with
      | some hash => .hash hash
      | none => .empty⟩
  else ⟨entry.relativePath, 0, .empty⟩

/-- The entries that the loop of `RefreshSource` appends before it ends, or throws at a file without
a hash. -/
def announcedEntries (snapshot : List (SnapshotEntry H)) : List (ManifestEntry H) :=
  (snapshot.takeWhile isHashed).map entryOf

variable [ContentHash H]

/-- The scan of `RefreshSource`. -/
def scanSource (folder : Folder) (mtime : Path → Int) : Except Error (List (SnapshotEntry H)) := do
  let rules ← folder.loadRules
  folder.scan rules mtime

/-- A scan finds the hash of every file. -/
theorem isHashed_of_scan {folder : Folder} {rules : IgnoreRules} {mtime : Path → Int}
    {snapshot : List (SnapshotEntry H)} (h : folder.scan rules mtime = .ok snapshot) :
    ∀ entry ∈ snapshot, isHashed entry := by
  rw [Folder.scan] at h
  generalize folder.listed = entries at h
  induction entries generalizing snapshot with
  | nil =>
    cases h
    nofun
  | cons e rest ih =>
    obtain ⟨p, n⟩ := e
    obtain ⟨ignored, -, h⟩ := ok_of_bind h
    obtain ⟨tail, htail, h⟩ := ok_of_bind h
    cases h
    intro entry hentry
    split at hentry
    · exact ih htail entry hentry
    · rcases List.mem_cons.mp hentry with rfl | hentry
      · cases n <;> rfl
      · exact ih htail entry hentry

/-- The source file that `HandleFileRequest` finds: `lower_bound` by hash, and the comparison after
it. -/
def findSource (sourceFiles : List (SourceFile H)) (fileHash : H) : Option (SourceFile H) :=
  (sourceFiles.find? fun source => fileHash ≤ source.hash).filter fun source =>
    source.hash = fileHash

/-- The session that `HandleFileRequest` opens for a source file. -/
def openSession (source : SourceFile H) (folder : Folder) (request : FileRequest H) :
    Except Error (UploadSession H) :=
  (openUpload source.path request.transferId request.fileHash).queueRequested folder request

end OneWay

end VeritasSync
