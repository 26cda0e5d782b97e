import VeritasSync.Storage.Folder

/-!
# Downloads and uploads

The two ends of a transfer.  A `DownloadReceiver` knows which chunks of a file it still needs and
checks the ones that arrive; which chunks are durable is in the database, and the bytes go to the
destination's part file.  An `UploadSession` reads the requested chunks of a source file one at a
time.

`SendScheduler` does not appear: `UploadSession::NextForTransport` takes every frame out of it in
the call that put the frame in, so its queues are empty between calls.

Chunks have a fixed size, and which of them a receiver still needs is computed from the marks in the
database.  So a transfer that was interrupted needs nothing but its row and its part file to go on,
on another day and over another connection.
-/

set_option autoImplicit false

namespace VeritasSync

variable {H : Type} [ContentHash H]

/-- `ChunkCount`: how many chunks a file of this size has. -/
def chunkCount (size : Nat) : Nat :=
  if size = 0 then 0 else (size + logicalChunkSize - 1) / logicalChunkSize

/-- The length of a chunk of a file of the given size. -/
def chunkLength (size index : Nat) : Nat :=
  if index * logicalChunkSize < size then
    min logicalChunkSize (size - index * logicalChunkSize)
  else 0

/-! ## Resuming -/

/-- The loop of `MissingChunkRanges` over the completed chunks in increasing order. -/
def missingRanges (totalChunks : Nat) : Nat → List Nat → Except Error (List ChunkRange)
  | cursor, [] =>
    if cursor < totalChunks then
      if totalChunks - cursor > 2 ^ 32 - 1 then
        .error (.invalidArgument "missing range is too large")
      else .ok [⟨cursor, totalChunks - cursor⟩]
    else .ok []
  | cursor, chunk :: rest => do
    if chunk > cursor ∧ chunk - cursor > 2 ^ 32 - 1 then
      throw (.invalidArgument "missing range is too large")
    let missing ← missingRanges totalChunks (chunk + 1) rest
    pure (if chunk > cursor then ⟨cursor, chunk - cursor⟩ :: missing else missing)

/-- `MissingChunkRanges`.  The completed chunks come from a table in index order, without
duplicates. -/
def missingChunkRanges (totalChunks : Nat) (completedChunks : List Nat) :
    Except Error (List ChunkRange) := do
  if totalChunks = 0 then throw (.invalidArgument "transfer must contain chunks")
  if completedChunks.any fun chunk => chunk ≥ totalChunks then
    throw (.invalidArgument "completed chunk exceeds transfer size")
  missingRanges totalChunks 0 completedChunks

/-! ## Receiving -/

/-- `sync::DownloadReceiver`.  `accepted` holds the indices of the chunks written so far. -/
structure DownloadReceiver (H : Type) where
  transferId : TransferId
  relativePath : Path
  expectedSize : Nat
  expectedHash : H
  chunkCount : Nat
  accepted : List Nat
  receivedBytes : Nat
  deriving DecidableEq

namespace DownloadReceiver

/-- What the constructor of `DownloadReceiver` adds up for the durable chunks. -/
def durableBytes (expectedSize : Nat) (completed : List Nat) : Nat :=
  (completed.map fun index =>
    min logicalChunkSize (expectedSize - index * logicalChunkSize)).sum

/-- The constructor of `DownloadReceiver`: the durable chunks count as accepted. -/
def create (db : Database H) (transferId : TransferId) (relativePath : Path) (expectedSize : Nat)
    (expectedHash : H) (chunkCount : Nat) : Except Error (DownloadReceiver H) := do
  if relativePath = [] ∨ chunkCount = 0 then
    throw (.invalidArgument "download metadata is invalid")
  if expectedSize / logicalChunkSize + (if expectedSize % logicalChunkSize ≠ 0 then 1 else 0) ≠
      chunkCount then
    throw (.invalidArgument "download chunk count does not match size")
  if (db.completedTransferChunks transferId).any fun index => index ≥ chunkCount then
    throw (.runtimeError "durable chunk index is out of range")
  pure ⟨transferId, relativePath, expectedSize, expectedHash, chunkCount,
    db.completedTransferChunks transferId,
    durableBytes expectedSize (db.completedTransferChunks transferId)⟩

omit [ContentHash H] in
theorem create_eq_ok {db : Database H} {transferId : TransferId} {relativePath : Path}
    {expectedSize : Nat} {expectedHash : H} {chunkCount : Nat} {receiver : DownloadReceiver H}
    (h : create db transferId relativePath expectedSize expectedHash chunkCount = .ok receiver) :
    (∀ index ∈ db.completedTransferChunks transferId, index < chunkCount) ∧
      receiver = ⟨transferId, relativePath, expectedSize, expectedHash, chunkCount,
        db.completedTransferChunks transferId,
        durableBytes expectedSize (db.completedTransferChunks transferId)⟩ := by
  rw [create] at h
  by_cases hmetadata : relativePath = [] ∨ chunkCount = 0
  · rw [if_pos hmetadata] at h
    cases h
  rw [if_neg hmetadata] at h
  by_cases hcount : expectedSize / logicalChunkSize +
      (if expectedSize % logicalChunkSize ≠ 0 then 1 else 0) ≠ chunkCount
  · rw [if_pos hcount] at h
    cases h
  rw [if_neg hcount] at h
  split at h
  · cases h
  · next hdurable =>
    cases h
    refine ⟨fun index hindex => ?_, rfl⟩
    by_contra hle
    exact hdurable (List.any_eq_true.mpr ⟨index, hindex, decide_eq_true (not_lt.mp hle)⟩)

/-- The checks of `DownloadReceiver::AcceptChunk`. -/
def checkChunk (receiver : DownloadReceiver H) (index offset : Nat) (bytes : Bytes)
    (chunkHash : H) : Except Error Unit :=
  if index ≥ receiver.chunkCount ∨ offset ≠ index * logicalChunkSize ∨
      bytes.length ≠ chunkLength receiver.expectedSize index ∨ blake3 bytes ≠ chunkHash then
    .error (.invalidArgument "download chunk is invalid")
  else .ok ()

/-- The members of a receiver once a chunk has been written. -/
def accept (receiver : DownloadReceiver H) (index length : Nat) : DownloadReceiver H :=
  { receiver with
    accepted := index :: receiver.accepted
    receivedBytes := receiver.receivedBytes + length }

omit [ContentHash H] in
@[simp] theorem accepted_accept (receiver : DownloadReceiver H) (index length : Nat) :
    (receiver.accept index length).accepted = index :: receiver.accepted := rfl

/-- `DownloadReceiver::ResumeRequest`: the chunks without a mark, as ranges. -/
def resumeRequest (receiver : DownloadReceiver H) (db : Database H) :
    Except Error (FileRequest H) := do
  let missing ← missingChunkRanges receiver.chunkCount
    (db.completedTransferChunks receiver.transferId)
  pure ⟨receiver.transferId, receiver.expectedHash, missing⟩

/-- The check of `DownloadReceiver::Commit` that every chunk is durable. -/
def checkComplete (receiver : DownloadReceiver H) (db : Database H) : Except Error Unit :=
  if db.completedTransferChunks receiver.transferId = List.range receiver.chunkCount then .ok ()
  else .error (.logicError "download has missing chunks")

end DownloadReceiver

/-! ## Sending -/

/-- `sync::ChunkSource`.  `stream` is the file as it was when the first chunk was read; the stream
stays open. -/
structure ChunkSource (H : Type) where
  sourcePath : Path
  transferId : TransferId
  fileHash : H
  stream : Option Bytes
  deriving DecidableEq

namespace ChunkSource

/-- `ChunkSource::ValidateRequest`: the request is for this transfer, and the file still has the
hash that was announced. -/
def validateRequest (source : ChunkSource H) (folder : Folder) (request : FileRequest H) :
    Except Error Unit :=
  if request.transferId ≠ source.transferId ∨ request.fileHash ≠ source.fileHash then
    .error (.invalidArgument "file request does not match transfer")
  else
    match folder.readFile source.sourcePath with
    | none => .error (.runtimeError "cannot read file for hashing")
    | some content =>
      if blake3 content ≠ source.fileHash then .error (.runtimeError "transfer source changed")
      else .ok ()

/-- `ChunkSource::ReadChunk`, with the source as it leaves it. -/
def readChunk (source : ChunkSource H) (folder : Folder) (index : Nat) :
    Except Error (Chunk H) × ChunkSource H :=
  match folder.readFile source.sourcePath with
  | none => (.error (.runtimeError "file_size"), source)
  | some current =>
    let totalChunks := (current.length + logicalChunkSize - 1) / logicalChunkSize
    if index ≥ totalChunks then
      (.error (.invalidArgument "requested chunk is outside source"), source)
    else
      let opened := source.stream.getD current
      let offset := index * logicalChunkSize
      let length := min logicalChunkSize (current.length - offset)
      let bytes := (opened.drop offset).take length
      let source := { source with stream := some opened }
      if bytes.length ≠ length then
        (.error (.runtimeError "cannot read transfer chunk"), source)
      else (.ok ⟨source.transferId, source.fileHash, offset, blake3 bytes, bytes⟩, source)

end ChunkSource

/-- `sync::UploadSession`: the ranges that are still to be sent, the first of them with what is left
of it. -/
structure UploadSession (H : Type) where
  source : ChunkSource H
  requestedRanges : List ChunkRange
  deriving DecidableEq

namespace UploadSession

/-- `UploadSession::QueueRequested`: the ranges of the request come after those that are still to be
sent. -/
def queueRequested (session : UploadSession H) (folder : Folder) (request : FileRequest H) :
    Except Error (UploadSession H) := do
  session.source.validateRequest folder request
  pure { session with requestedRanges := session.requestedRanges ++ request.missingRanges }

/-- The ranges after the first requested chunk has been read. -/
def advanceRanges : List ChunkRange → List ChunkRange
  | [] => []
  | range :: rest =>
    if range.chunkCount - 1 = 0 then rest
    else ⟨range.firstChunk + 1, range.chunkCount - 1⟩ :: rest

/-- `kResumeBelowBytes`: a transport that has less than this buffered is given a chunk. -/
def resumeBelowBytes : Nat := 1024 * 1024

/-- `UploadSession::NextForTransport`, with the session as it leaves it. -/
def nextForTransport (session : UploadSession H) (folder : Folder) (bufferedBytes : Nat) :
    Except Error (Option (Chunk H)) × UploadSession H :=
  match session.requestedRanges with
  | [] => (.ok none, session)
  | range :: _ =>
    if bufferedBytes ≥ resumeBelowBytes then (.ok none, session)
    else
      match session.source.readChunk folder range.firstChunk with
      | (.error e, source) => (.error e, { session with source })
      | (.ok chunk, source) =>
        (.ok (some chunk),
          { source, requestedRanges := advanceRanges session.requestedRanges })

/-- `UploadSession::HasPending`: a range is still to be sent. -/
def hasPending (session : UploadSession H) : Bool := session.requestedRanges ≠ []

end UploadSession

end VeritasSync
