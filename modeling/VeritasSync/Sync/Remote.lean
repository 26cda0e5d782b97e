import VeritasSync.Sync.Refresh

/-!
# Applying remote changes

A manifest is applied entry by entry: the lineage row and the clock are recorded, `resolve` decides,
and the decision is carried out.  Directories and tombstones take effect at once, and so do files
that are empty or already complete on disk.  Any other file becomes an `ActiveDownload`, and takes
effect when its last chunk arrives.

What makes this the hardest part of a node is that it deletes.  A tombstone from the peer removes a
file or an empty directory, and the losing file of a conflict is moved out of the way.  The order in
which a function does these things and records them is the order of the source, statement by
statement, since an exception in the middle leaves behind exactly what came before it.
-/

set_option autoImplicit false

namespace VeritasSync

namespace Node

variable {H : Type} [ContentHash H]

/-! ## Remote changes -/

/-- `DecodeHash`: the hash that a file has to be announced with. -/
def decodeHash (entry : VersionedManifestEntry H) : Except Error H :=
  match entry.contentHash with
  | some hash => .ok hash
  | none => .error (.invalidArgument "manifest content hash length is invalid")

/-- The hash of the record of an entry: that of a file, or none. -/
def entryHash (entry : VersionedManifestEntry H) : Except Error (Option H) :=
  if entry.kind = .file then (decodeHash entry).map some else .ok none

/-- `ToRecord`: the record that an entry becomes.  Its time stamp is not transmitted. -/
def toRecord (taskId : Bytes) (entry : VersionedManifestEntry H) :
    Except Error (FileRecord H) := do
  let hash ← entryHash entry
  if entry.deletedAtMs.any fun t => t > Database.int64Max then
    .error (.invalidArgument "tombstone timestamp is too large")
  else
    .ok
      { taskId, relativePath := entry.relativePath, kind := entry.kind, size := entry.size
        mtimeNs := 0, contentHash := hash, versionId := entry.versionId
        originDeviceId := entry.originDeviceId, logicalClock := entry.logicalClock
        deletedAtMs := entry.deletedAtMs.map fun t => (t : Int) }

/-- The parent of an entry. -/
def entryParent (entry : VersionedManifestEntry H) : Option VersionId :=
  if entry.parentVersionId = [] then none else some entry.parentVersionId

/-- `UpsertRemoteRecord`: the entry becomes the record of its path. -/
def upsertRemoteRecord (entry : VersionedManifestEntry H) : NodeM H Unit := do
  let n ← Exec.state
  let record ← Exec.check fun _ => toRecord n.config.taskId entry
  dbDo fun db => db.upsertFileRecord record

/-- `DownloadReceiver::Commit`: the part file is checked and renamed, and the transfer is marked
completed. -/
def commitReceiver (receiver : DownloadReceiver H) : NodeM H Unit := do
  Exec.check fun n => receiver.checkComplete n.db
  folderDo fun folder =>
    folder.commitPartial receiver.relativePath receiver.expectedSize receiver.expectedHash
  let n ← Exec.state
  dbDo fun db => db.updateTransferState receiver.transferId .completed n.nowMs

/-- The transfer `BeginDownload` continues, or a new one. -/
def openTransfer (destinationPath : Path) (hash : H) : NodeM H TransferId := do
  let n ← Exec.state
  match ← Exec.check fun n =>
    n.db.findActiveDownloadTransfer n.config.peerDeviceId destinationPath hash with
  | some active => pure active.transferId
  | none =>
    let transferId ← newTransferId
    folderDo fun folder => folder.discardPartial destinationPath
    dbDo fun db => db.createTransfer
      { transferId, peerDeviceId := n.config.peerDeviceId, direction := .download, fileHash := hash
        state := .active, createdAtMs := n.nowMs, updatedAtMs := n.nowMs
        relativePath := destinationPath, completedChunks := [] }
    pure transferId

/-- `BeginDownload` of a file that is not empty, once the destination is clear. -/
def beginTransfer (entry : VersionedManifestEntry H) (destinationPath : Path)
    (applyFormalRecord : Bool) (hash : H) (against : Option VersionId) : NodeM H Unit := do
  let transferId ← openTransfer destinationPath hash
  let count := chunkCount entry.size
  let receiver ← Exec.check fun n =>
    DownloadReceiver.create n.db transferId destinationPath entry.size hash count
  let request ← Exec.check fun n => receiver.resumeRequest n.db
  if request.missingRanges = [] then
    commitReceiver receiver
    Exec.when applyFormalRecord (upsertRemoteRecord entry)
  else
    Exec.update fun n =>
      { n with
        downloads := n.downloads ++
          [{ entry, destinationPath, applyFormalRecord, hash, transferId, chunkCount := count
             receiver, durableChunks := (n.db.completedTransferChunks transferId).length
             dirtyBytes := 0, dirtyChunks := [], against }] }
    send (.fileRequest request)

/-- `BeginDownload`.  `against` is the local version the entry was resolved against. -/
def beginDownload (entry : VersionedManifestEntry H) (destinationPath : Path)
    (applyFormalRecord : Bool) (against : Option VersionId) : NodeM H Unit := do
  let hash ← Exec.check fun _ => decodeHash entry
  let n ← Exec.state
  if n.downloads.any fun active =>
      active.destinationPath = destinationPath ∧ active.hash = hash then pure ()
  else
    Exec.check fun _ => Folder.resolveTaskPath destinationPath
    Exec.when (n.folder.isDirectory destinationPath)
      (folderDo fun folder => folder.removeEmptyDirectory destinationPath)
    if entry.size = 0 then
      folderDo fun folder => folder.writeAtomically destinationPath []
      Exec.when applyFormalRecord (upsertRemoteRecord entry)
    else beginTransfer entry destinationPath applyFormalRecord hash against

/-- `RelocateSourceFile`: uploads of a file that has been moved go on at its new path. -/
def relocateSourceFile (oldPath newPath : Path) : NodeM H Unit := Exec.update fun n =>
  { n with
    sourceFiles := n.sourceFiles.map fun source =>
      if source.path = oldPath then { source with path := newPath } else source }

/-- What a tombstone removes: the file or the empty directory at the path. -/
def clearPath (p : Path) : NodeM H Unit := do
  let n ← Exec.state
  if n.folder.isRegularFile p then folderDo fun folder => folder.removeFile p
  else Exec.when (n.folder.isDirectory p) (folderDo fun folder => folder.removeEmptyDirectory p)

/-- The part of `ApplyRemoteEntry` that gives the formal path to the remote entry. -/
def applyFormal (entry : VersionedManifestEntry H) (against : Option VersionId) :
    NodeM H Unit := do
  match entry.kind with
  | .file => beginDownload entry entry.relativePath true against
  | .directory =>
    let n ← Exec.state
    Exec.check fun _ => Folder.resolveTaskPath entry.relativePath
    Exec.when (n.folder.isRegularFile entry.relativePath)
      (folderDo fun folder => folder.removeFile entry.relativePath)
    folderDo fun folder => folder.ensureDirectory entry.relativePath
    upsertRemoteRecord entry
  | .tombstone =>
    Exec.check fun _ => Folder.resolveTaskPath entry.relativePath
    clearPath entry.relativePath
    upsertRemoteRecord entry

/-- The conflict branch of `ApplyRemoteEntry`, up to where the remote entry takes the formal
path. -/
def preserveConflict (entry : VersionedManifestEntry H) (remote loc : FileRecord H)
    (resolution : VersionResolution) : NodeM H Unit := do
  let conflictId ← newUuidV4
  let n ← Exec.state
  dbDo fun db => db.recordConflict
    { conflictId, originalPath := entry.relativePath
      winningVersionId := if resolution.remoteWins then remote.versionId else loc.versionId
      conflictPath := resolution.conflictPath, state := ascii "unresolved", createdAtMs := n.nowMs }
  Exec.when (resolution.remoteWins ∧ loc.kind = .file) do
    folderDo fun folder => folder.moveFileToConflict entry.relativePath resolution.conflictPath
    Exec.update fun n =>
      { n with trace := { n.trace with
          preserved := n.trace.preserved ++ [(entry.relativePath, loc.versionId)] } }
    relocateSourceFile entry.relativePath resolution.conflictPath

/-- What `ApplyRemoteEntry` does with a resolution. -/
def actOn (entry : VersionedManifestEntry H) (remote : FileRecord H) (loc : Option (FileRecord H))
    (resolution : VersionResolution) : NodeM H Unit := do
  let against := loc.map FileRecord.versionId
  match resolution.action, loc with
  | .keepLocal, _ => pure ()
  | .conflict, some loc =>
    preserveConflict entry remote loc resolution
    if resolution.remoteWins then applyFormal entry against
    else
      Exec.when (entry.kind = .file)
        (beginDownload entry resolution.conflictPath false against)
  | _, _ => applyFormal entry against

/-- The part of `ApplyRemoteEntry` before the resolution: the lineage row and the clock. -/
def observeEntry (entry : VersionedManifestEntry H) (remote : FileRecord H) : NodeM H Unit := do
  dbDo fun db => db.recordVersionLineage ⟨remote.versionId, entryParent entry⟩
  let _ ← dbGet fun db => db.advanceLogicalClock remote.logicalClock
  Exec.update fun n =>
    { n with trace := { n.trace with observed := n.trace.observed ++ [entry] } }

/-- `ApplyRemoteEntry`: the entry is observed, resolved against the record of its path, and acted
on. -/
def applyRemoteEntry (entry : VersionedManifestEntry H) : NodeM H Unit := do
  let n ← Exec.state
  let remote ← Exec.check fun _ => toRecord n.config.taskId entry
  observeEntry entry remote
  let loc ← Exec.check fun n => n.db.findFileRecord entry.relativePath
  let resolution ← Exec.check fun n => resolve n.db n.config.taskId loc ⟨remote, entryParent entry⟩
  actOn entry remote loc resolution

/-- The validation of `ApplyManifest`: every path is one the folder admits, every file has a hash,
no path occurs twice. -/
def validateManifest (manifest : VersionedManifest H) : Except Error Unit := do
  manifest.entries.forM fun entry => do
    Folder.resolveTaskPath entry.relativePath
    if entry.kind = .file then
      let _ ← decodeHash entry
  if ¬ (manifest.entries.map VersionedManifestEntry.relativePath).Nodup then
    throw (.invalidArgument "manifest contains duplicate paths")

/-- One round of the loop of `ApplyManifest`. -/
def applyEntry (rules : IgnoreRules) (entry : VersionedManifestEntry H) : NodeM H Unit := do
  let ignored ← Exec.check fun _ => rules.isIgnored entry.relativePath
  Exec.when (¬ ignored) (applyRemoteEntry entry)

/-- `ApplyManifest`.  The manifest is checked as a whole; after that an exception leaves the entries
before it applied. -/
def applyManifest (manifest : VersionedManifest H) : NodeM H Unit := do
  Exec.check fun _ => validateManifest manifest
  Exec.update fun n => { n with receivedManifest := true }
  let rules ← Exec.check fun n => n.folder.loadRules
  manifest.entries.forM (applyEntry rules)
  Exec.update fun n =>
    { n with trace := { n.trace with appliedManifest := some manifest, missedManifest := false } }

/-! ## Chunks

A file that is not there yet arrives in chunks.  Each goes to the part file; from time to time the
chunks that have been written are marked in the database; and with the last one the part file takes
the place of the destination and the record is stored. -/

/-- The first download a chunk can belong to. -/
def ownsChunk (chunk : Chunk H) (download : ActiveDownload H) : Bool :=
  download.transferId = chunk.transferId && download.hash = chunk.fileHash

/-- Rewrite the first element that satisfies `p`. -/
def updateFirst {γ : Type} (p : γ → Bool) (f : γ → γ) : List γ → List γ
  | [] => []
  | x :: xs => if p x then f x :: xs else x :: updateFirst p f xs

theorem find?_updateFirst {γ : Type} {p : γ → Bool} {f : γ → γ} {l : List γ} {d : γ}
    (hfind : l.find? p = some d) (hp : p (f d) = true) :
    (updateFirst p f l).find? p = some (f d) := by
  induction l with
  | nil => cases hfind
  | cons x l ih =>
    rw [updateFirst]
    by_cases hx : p x = true
    · rw [List.find?_cons_of_pos hx] at hfind
      cases hfind
      rw [if_pos hx, List.find?_cons_of_pos hp]
    · rw [List.find?_cons_of_neg hx] at hfind
      rw [if_neg hx, List.find?_cons_of_neg hx]
      exact ih hfind

/-- `kPersistBatchBytes`: so much may be dirty before it is marked. -/
def persistBatchBytes : Nat := 8 * 1024 * 1024

/-- `DownloadReceiver::PersistAcceptedChunks`: the chunks are marked after the part file has been
flushed. -/
def persistAcceptedChunks (receiver : DownloadReceiver H) (indices : List Nat) :
    NodeM H Unit := do
  Exec.check fun n => n.folder.flushPartial receiver.relativePath
  let n ← Exec.state
  dbDo fun db => db.markTransferChunksCompleted receiver.transferId indices n.nowMs

/-- `CommitDownload`.  A download to a conflict path leaves the record of the formal path alone. -/
def commitDownload (download : ActiveDownload H) : NodeM H Unit := do
  commitReceiver download.receiver
  Exec.when download.applyFormalRecord (upsertRemoteRecord download.entry)

/-- The end of `AcceptChunk`: a download with all its chunks durable is committed. -/
def settleDownload (chunk : Chunk H) (download : ActiveDownload H) : NodeM H Unit := do
  Exec.when (download.durableChunks = download.chunkCount) do
    commitDownload download
    Exec.update fun n => { n with downloads := n.downloads.eraseP (ownsChunk chunk) }

/-- `AcceptChunk`, once the download is found. -/
def acceptInto (chunk : Chunk H) (download : ActiveDownload H) : NodeM H Unit := do
  let index := chunk.offset / logicalChunkSize
  Exec.check fun _ => download.receiver.checkChunk index chunk.offset chunk.bytes chunk.chunkHash
  if index ∈ download.receiver.accepted then pure ()
  else
    folderDo fun folder =>
      folder.writePartialChunk download.receiver.relativePath chunk.offset chunk.bytes
    let accepted := download.accept index chunk.bytes.length
    Exec.update fun n =>
      { n with
        downloads := updateFirst (ownsChunk chunk)
          (fun d => d.accept index chunk.bytes.length) n.downloads }
    if accepted.dirtyBytes ≥ persistBatchBytes ∨
        accepted.durableChunks + accepted.dirtyChunks.length = accepted.chunkCount then
      persistAcceptedChunks accepted.receiver accepted.dirtyChunks
      Exec.update fun n =>
        { n with
          downloads := updateFirst (ownsChunk chunk) ActiveDownload.persisted n.downloads }
      settleDownload chunk accepted.persisted
    else settleDownload chunk accepted

/-- `AcceptChunk`: the chunk goes to the download with its transfer and its hash. -/
def acceptChunk (chunk : Chunk H) : NodeM H Unit := do
  let n ← Exec.state
  match n.downloads.find? (ownsChunk chunk) with
  | none => Exec.raise (.invalidArgument "chunk does not belong to active download")
  | some download => acceptInto chunk download

end Node

end VeritasSync
