import VeritasSync.Sync.Remote
import VeritasSync.Sync.Source

/-!
# A one-way node

`OneWaySyncNode`, member function by member function: a session between one source and one target,
in either role.  The state is what the node can see, as for a bidirectional node; a member function
is an `Exec` over it, so that an exception leaves behind what had already been written.

`trace` is bookkeeping for statements about runs; the code never reads it.

The two roles are one class in the source, with a branch on the role wherever they differ, and one
state here.  A source has no downloads and a target has no manifest revision of its own; nothing is
assumed about these members.

The revision is a `uint64_t` that the source increments with every scan.  What it holds before the
first scan is whatever the constructor left there, so it is a parameter.
-/

set_option autoImplicit false

namespace VeritasSync

namespace OneWay

/-- `sync::OneWaySyncConfig`, as the constructor of the node admits it. -/
structure Config where
  taskId : Bytes
  role : Role
  deviceId : DeviceId
  peerDeviceId : DeviceId
  deviceFingerprint : Bytes
  authorizationDigest : Bytes
  role_ne : role ≠ .peer
  taskId_ne : taskId ≠ []
  deviceId_ne : deviceId ≠ []
  peerDeviceId_ne : peerDeviceId ≠ []
  deviceFingerprint_ne : deviceFingerprint ≠ []
  authorizationDigest_ne : authorizationDigest ≠ []

/-- `OneWaySyncNode::ActiveDownload`: a file that is arriving, with its counts of chunks. -/
structure Download (H : Type) where
  entry : ManifestEntry H
  hash : H
  transferId : TransferId
  chunkCount : Nat
  receiver : DownloadReceiver H
  durableChunks : Nat
  dirtyBytes : Nat
  dirtyChunks : List Nat
  deriving DecidableEq

/-- The members of a download once a chunk has been written. -/
def Download.accept {H : Type} (download : Download H) (receiver : DownloadReceiver H)
    (index length : Nat) : Download H :=
  { download with
    receiver
    dirtyBytes :=
      if index ∈ download.dirtyChunks then download.dirtyBytes else download.dirtyBytes + length
    dirtyChunks :=
      if index ∈ download.dirtyChunks then download.dirtyChunks
      else download.dirtyChunks ++ [index] }

/-- The members of a download once its dirty chunks are durable. -/
def Download.persisted {H : Type} (download : Download H) : Download H :=
  { download with
    durableChunks := download.durableChunks + download.dirtyChunks.length
    dirtyBytes := 0
    dirtyChunks := [] }

/-- The bytes of a chunk that a node has accepted. -/
structure AcceptedChunk where
  transferId : TransferId
  index : Nat
  bytes : Bytes
  deriving DecidableEq

/-- What has happened to a node so far, for statements about runs. -/
structure Trace (H : Type) where
  /-- The manifests of the scans that have been completed. -/
  scans : List (Manifest H)
  /-- The chunks that have been accepted, the latest first. -/
  accepted : List AcceptedChunk
  deriving DecidableEq

/-- An `OneWaySyncNode` and what it acts on. -/
structure Node (H : Type) where
  config : Config
  env : Environment
  uuid : Nat → Bytes
  uuidsUsed : Nat
  transferId : Nat → TransferId
  transferIdsUsed : Nat
  db : Database H
  folder : Folder
  started : Bool
  receivedHello : Bool
  manifestRevision : UInt64
  /-- What `source_manifest_.revision` holds before the first scan: it has no initializer. -/
  initialRevision : UInt64
  sourceManifest : Manifest H
  sourceFiles : List (SourceFile H)
  downloads : List (Download H)
  uploads : List (PendingUpload H)
  receivedManifest : Option (Manifest H)
  lastError : Option String
  /-- The frames handed to the transport. -/
  out : List (Frame H)
  trace : Trace H

/-- A member function of the node. -/
abbrev NodeM (H α : Type) := Exec (Node H) Error α

namespace Node

variable {H α : Type}

/-- A node that has just been constructed over a database and a folder. -/
def create (config : Config) (env : Environment) (uuid : Nat → Bytes)
    (transferId : Nat → TransferId) (initialRevision : UInt64) (db : Database H)
    (folder : Folder) : Node H where
  config := config
  env := env
  uuid := uuid
  uuidsUsed := 0
  transferId := transferId
  transferIdsUsed := 0
  db := db
  folder := folder
  started := false
  receivedHello := false
  manifestRevision := 0
  initialRevision := initialRevision
  sourceManifest := ⟨initialRevision, []⟩
  sourceFiles := []
  downloads := []
  uploads := []
  receivedManifest := none
  lastError := none
  out := []
  trace := ⟨[], []⟩

/-- The node after the process has ended and it has been constructed again: the database and the
folder are as they were. -/
def restart (n : Node H) : Node H :=
  { n with
    started := false
    receivedHello := false
    manifestRevision := 0
    sourceManifest := ⟨n.initialRevision, []⟩
    sourceFiles := []
    downloads := []
    uploads := []
    receivedManifest := none
    lastError := none
    out := [] }

/-! ## Primitives -/

/-- The part of the node that a `DownloadReceiver` refers to. -/
def store (n : Node H) : Store H := ⟨n.folder, n.db⟩

/-- The node with that part replaced. -/
def setStore (n : Node H) (s : Store H) : Node H := { n with folder := s.folder, db := s.db }

/-- Run a function of a `DownloadReceiver`. -/
def onStore (m : Exec (Store H) Error α) : NodeM H α := fun n =>
  ((m n.store).1, n.setStore (m n.store).2)

/-- A database operation with a result. -/
def dbGet (f : Database H → Except Error (α × Database H)) : NodeM H α :=
  Exec.atomic fun n => (f n.db).map fun r => (r.1, { n with db := r.2 })

/-- A database operation: it takes effect as a whole, or raises and changes nothing. -/
def dbDo (f : Database H → Except Error (Database H)) : NodeM H Unit :=
  Exec.atomic fun n => (f n.db).map fun db => ((), { n with db })

/-- A folder operation: it takes effect as a whole, or raises and changes nothing. -/
def folderDo (f : Folder → Except Error Folder) : NodeM H Unit :=
  Exec.atomic fun n => (f n.folder).map fun folder => ((), { n with folder })

/-- `Send`, on the channel the frame's type belongs to. -/
def send (frame : Frame H) : NodeM H Unit := Exec.update fun n => { n with out := n.out ++ [frame] }

/-- `common::NewUuidV4`: the next of the identifiers that the node has been given. -/
def newUuidV4 : NodeM H Bytes := fun n =>
  (.ok (n.uuid n.uuidsUsed), { n with uuidsUsed := n.uuidsUsed + 1 })

/-- `common::NewTransferId`: the next of the identifiers that the node has been given. -/
def newTransferId : NodeM H TransferId := fun n =>
  (.ok (n.transferId n.transferIdsUsed), { n with transferIdsUsed := n.transferIdsUsed + 1 })

/-- `NowMilliseconds`, which does not change during a call. -/
def nowMs (n : Node H) : Int := n.env.nowMs.1

/-! ## State queries -/

/-- `HandshakeComplete`: the peer has introduced itself, and there has been no error. -/
def handshakeComplete (n : Node H) : Bool := n.started && n.receivedHello && n.lastError.isNone

/-- `RolesCompatible`: one of the two is the source, and the other one is the target. -/
def rolesCompatible (n : Node H) (peerRole : Role) : Bool :=
  (n.config.role = .source && peerRole = .target) || (n.config.role = .target && peerRole = .source)

/-- The HELLO of a node. -/
def helloOf (config : Config) : Hello :=
  ⟨config.taskId, config.role, config.deviceId, config.deviceFingerprint,
    config.authorizationDigest⟩

variable [ContentHash H]

/-! ## The source -/

/-- `SendManifest`: the manifest of the last scan, whether there has been one or not. -/
def sendManifest : NodeM H Unit := do
  let n ← Exec.state
  Exec.check fun n => n.sourceManifest.encode
  send (.manifest n.sourceManifest)

/-- `RefreshSource`: a scan of the folder, recorded, and announced to a peer that has said HELLO. -/
def refreshSource : NodeM H Unit := do
  let n ← Exec.state
  if n.config.role ≠ .source then
    Exec.raise (.logicError "only source nodes may scan local changes")
  else
    let snapshot ← Exec.check fun n => scanSource n.folder n.env.mtime
    let (_, used) ← dbGet fun db =>
      reconcile false db snapshot
        ⟨n.config.taskId, n.config.deviceId, (n.manifestRevision + 1).toNat, n.nowMs⟩ n.uuid
        n.uuidsUsed
    Exec.update fun n =>
      { n with
        uuidsUsed := used
        manifestRevision := n.manifestRevision + 1
        sourceManifest := ⟨n.manifestRevision + 1, announcedEntries snapshot⟩
        sourceFiles := VeritasSync.Node.sourceFilesOf (snapshot.takeWhile isHashed) }
    if !snapshot.all isHashed then
      Exec.raise (.logicError "source file snapshot has no hash")
    else
      Exec.update fun n =>
        { n with trace := { n.trace with scans := n.trace.scans ++ [n.sourceManifest] } }
      Exec.when n.receivedHello sendManifest

/-- `Start`: a source scans before it says HELLO. -/
def start : NodeM H Unit := do
  let n ← Exec.state
  if n.started then pure ()
  else
    Exec.update fun n => { n with started := true }
    Exec.when (n.config.role = .source) refreshSource
    send (.hello (helloOf n.config))

/-- `HandleFileRequest`: an upload is opened, in place of one of the same transfer, or the request
is answered with a reason. -/
def handleFileRequest (request : FileRequest H) : NodeM H Unit := do
  let n ← Exec.state
  match findSource n.sourceFiles request.fileHash with
  | none => send (.cancel ⟨request.transferId, "source_missing"⟩)
  | some source =>
    Exec.update fun n =>
      { n with uploads := n.uploads.filter fun upload => upload.transferId ≠ request.transferId }
    match openSession source n.folder request with
    | .error _ => send (.cancel ⟨request.transferId, "source_changed"⟩)
    | .ok session =>
      Exec.update fun n => { n with uploads := n.uploads ++ [⟨request.transferId, session⟩] }

/-- Hand a chunk to the transport, if there is one. -/
def sendChunk : Option (Chunk H) → NodeM H Unit
  | none => pure ()
  | some chunk => send (.chunk chunk)

/-- The loop of `Pump` over the uploads: `done` are the ones already served and kept. -/
def pumpUploads (done : List (PendingUpload H)) : List (PendingUpload H) → NodeM H Unit
  | [] => Exec.update fun n => { n with uploads := done }
  | upload :: rest => do
    let n ← Exec.state
    match upload.session.nextForTransport n.folder n.env.bufferedAmount with
    | (.error e, session) =>
      Exec.update fun n => { n with uploads := done ++ { upload with session } :: rest }
      Exec.raise e
    | (.ok next, session) =>
      sendChunk next
      if session.hasPending then pumpUploads (done ++ [{ upload with session }]) rest
      else pumpUploads done rest

/-! ## The target -/

/-- `UpsertFileRecord` of what the source has at a path. -/
def upsertRecord (path : Path) (kind : FileKind) (size : Nat) (contentHash : Option H) :
    NodeM H Unit := do
  let version ← newUuidV4
  let n ← Exec.state
  dbDo fun db => db.upsertFileRecord
    { taskId := n.config.taskId, relativePath := path, kind, size, mtimeNs := 0, contentHash
      versionId := version, originDeviceId := n.config.peerDeviceId, logicalClock := 0
      deletedAtMs := none }

/-- `TargetAlreadyHas`: both the record and the file are what the entry says; the file is read for
that. -/
def targetAlreadyHas (n : Node H) (entry : ManifestEntry H) : Except Error Bool := do
  Folder.resolveTaskPath entry.relativePath
  let record ← n.db.findFileRecord entry.relativePath
  if entry.isDirectory then
    pure ((record.any fun r => r.kind = .directory) && n.folder.isDirectory entry.relativePath &&
      entry.relativePath ∉ n.folder.links)
  else
    let hash ← entry.decodeHash
    if record.any fun r =>
        r.kind = .file ∧ r.size = entry.size ∧ r.contentHash = some hash then
      pure ((n.folder.readFile entry.relativePath).any fun content => blake3 content = hash)
    else pure false

/-- The transfer `BeginDownload` continues, or a new one. -/
def openTransfer (path : Path) (hash : H) : NodeM H TransferId := do
  let n ← Exec.state
  match ← Exec.check fun n =>
    n.db.findActiveDownloadTransfer n.config.peerDeviceId path hash with
  | some active => pure active.transferId
  | none =>
    let transferId ← newTransferId
    folderDo fun folder => folder.discardPartial path
    dbDo fun db => db.createTransfer
      { transferId, peerDeviceId := n.config.peerDeviceId, direction := .download, fileHash := hash
        state := .active, createdAtMs := n.nowMs, updatedAtMs := n.nowMs, relativePath := path
        completedChunks := [] }
    pure transferId

/-- `BeginDownload` of a file that is not empty and has no download yet. -/
def beginTransfer (entry : ManifestEntry H) (hash : H) : NodeM H Unit := do
  let transferId ← openTransfer entry.relativePath hash
  let count := chunkCount entry.size
  let receiver ← Exec.check fun n =>
    DownloadReceiver.create n.db transferId entry.relativePath entry.size hash count
  let request ← Exec.check fun n => receiver.resumeRequest n.db
  if request.missingRanges = [] then
    let n ← Exec.state
    onStore (receiver.commit n.nowMs)
    upsertRecord entry.relativePath .file entry.size (some hash)
  else
    Exec.update fun n =>
      { n with
        downloads := n.downloads ++
          [{ entry, hash, transferId, chunkCount := count, receiver
             durableChunks := (n.db.completedTransferChunks transferId).length
             dirtyBytes := 0, dirtyChunks := [] }] }
    Exec.check fun _ => encodeFileRequest request
    send (.fileRequest request)

/-- `BeginDownload`.  An empty file is written at once; its announced hash is decoded and not
compared with anything. -/
def beginDownload (entry : ManifestEntry H) : NodeM H Unit := do
  if entry.size = 0 then
    folderDo fun folder => folder.writeAtomically entry.relativePath []
    let hash ← Exec.check fun _ => entry.decodeHash
    upsertRecord entry.relativePath .file 0 (some hash)
  else
    let hash ← Exec.check fun _ => entry.decodeHash
    let n ← Exec.state
    if n.downloads.any fun download =>
        download.entry.relativePath = entry.relativePath ∧ download.hash = hash then pure ()
    else beginTransfer entry hash

/-- The paths of a manifest. -/
def paths (manifest : Manifest H) : List Path := manifest.entries.map ManifestEntry.relativePath

/-- The body of the loop of `DeleteFilesAbsentFrom`. -/
def deleteRecord (record : FileRecord H) : NodeM H Unit := do
  match record.kind with
  | .file => folderDo fun folder => folder.removeFile record.relativePath
  | .directory => folderDo fun folder => folder.removeEmptyDirectory record.relativePath
  | .tombstone => pure ()
  let version ← newUuidV4
  let n ← Exec.state
  dbDo fun db => db.recordTombstone n.config.taskId record.relativePath version
    n.config.peerDeviceId 0 n.nowMs

/-- The records that `DeleteFilesAbsentFrom` visits, in its order: longer paths first. -/
def recordsByLength (db : Database H) : List (FileRecord H) :=
  db.listFileRecords.insertionSort fun a b => b.relativePath.length ≤ a.relativePath.length

/-- `DeleteFilesAbsentFrom`: every live record that the manifest does not list goes, with what is on
disk at its path. -/
def deleteFilesAbsentFrom (manifest : Manifest H) : NodeM H Unit := do
  let n ← Exec.state
  (recordsByLength n.db).forM fun record =>
    Exec.when (¬ (record.kind = .tombstone ∨ record.relativePath ∈ paths manifest))
      (deleteRecord record)

/-- The body of the second loop of `ApplyManifest`. -/
def applyEntry (entry : ManifestEntry H) : NodeM H Unit := do
  let has ← Exec.check fun n => n.targetAlreadyHas entry
  if has then pure ()
  else if entry.isDirectory then
    folderDo fun folder => folder.ensureDirectory entry.relativePath
    upsertRecord entry.relativePath .directory 0 none
  else beginDownload entry

/-- The first loop of `ApplyManifest`. -/
def checkEntry (entry : ManifestEntry H) : Except Error Unit := do
  Folder.resolveTaskPath entry.relativePath
  if !entry.isDirectory then
    let _ ← entry.decodeHash
    pure ()

/-- `ApplyManifest`.  The manifest is checked as a whole before anything is done; then deletions
come before additions. -/
def applyManifest (manifest : Manifest H) : NodeM H Unit := do
  Exec.check fun _ => manifest.entries.forM checkEntry
  if ¬ (paths manifest).Nodup then
    Exec.raise (.invalidArgument "manifest contains duplicate paths")
  else
    Exec.update fun n => { n with lastError := none, receivedManifest := some manifest }
    deleteFilesAbsentFrom manifest
    manifest.entries.forM applyEntry

/-- The download a chunk belongs to. -/
def ownsChunk (chunk : Chunk H) (download : Download H) : Bool :=
  download.transferId = chunk.transferId ∧ download.hash = chunk.fileHash

/-- `CommitDownload`: the part file takes the place of the destination, and the record is stored. -/
def commitDownload (download : Download H) : NodeM H Unit := do
  let n ← Exec.state
  onStore (download.receiver.commit n.nowMs)
  upsertRecord download.entry.relativePath .file download.entry.size (some download.hash)

/-- The end of `AcceptChunk`: a download with all its chunks durable is committed. -/
def settleDownload (chunk : Chunk H) (download : Download H) : NodeM H Unit := do
  Exec.when (download.durableChunks = download.chunkCount) do
    commitDownload download
    Exec.update fun n => { n with downloads := n.downloads.eraseP (ownsChunk chunk) }

/-- `AcceptChunk`, once the download is found. -/
def acceptInto (chunk : Chunk H) (download : Download H) : NodeM H Unit := do
  let index := chunk.offset / logicalChunkSize
  let (fresh, receiver) ← onStore
    (download.receiver.acceptChunk index chunk.offset chunk.bytes chunk.chunkHash)
  if !fresh then pure ()
  else
    let accepted := download.accept receiver index chunk.bytes.length
    Exec.update fun n =>
      { n with
        downloads := VeritasSync.Node.updateFirst (ownsChunk chunk)
          (fun d => d.accept receiver index chunk.bytes.length) n.downloads
        trace := { n.trace with
          accepted := ⟨chunk.transferId, index, chunk.bytes⟩ :: n.trace.accepted } }
    if accepted.dirtyBytes ≥ VeritasSync.Node.persistBatchBytes ∨
        accepted.durableChunks + accepted.dirtyChunks.length = accepted.chunkCount then
      let n ← Exec.state
      onStore (accepted.receiver.persistAcceptedChunks accepted.dirtyChunks n.nowMs)
      Exec.update fun n =>
        { n with
          downloads := VeritasSync.Node.updateFirst (ownsChunk chunk) Download.persisted
            n.downloads }
      settleDownload chunk accepted.persisted
    else settleDownload chunk accepted

/-- `AcceptChunk`: the chunk goes to the download with its transfer and its hash. -/
def acceptChunk (chunk : Chunk H) : NodeM H Unit := do
  let n ← Exec.state
  match n.downloads.find? (ownsChunk chunk) with
  | none => Exec.raise (.invalidArgument "chunk does not belong to an active download")
  | some download => acceptInto chunk download

/-- One round of the loop of `PersistPendingDownloads`. -/
def persistDownload (force : Bool) (index : Nat) : NodeM H Unit := do
  let n ← Exec.state
  match n.downloads[index]? with
  | none => pure ()
  | some download =>
    Exec.when ((force ∨ download.dirtyBytes ≥ VeritasSync.Node.persistBatchBytes) ∧
        download.dirtyChunks ≠ []) do
      onStore (download.receiver.persistAcceptedChunks download.dirtyChunks n.nowMs)
      Exec.update fun n =>
        { n with downloads := n.downloads.modify index Download.persisted }

/-- `PersistPendingDownloads`: the dirty chunks of each download in turn are marked, if they are
enough or if `force` says so. -/
def persistPendingDownloads (force : Bool) : NodeM H Unit := do
  let n ← Exec.state
  (List.range n.downloads.length).forM (persistDownload force)

/-- `Pump`: a target marks chunks that are dirty, a source serves its uploads. -/
def pump : NodeM H Unit := do
  let n ← Exec.state
  if n.config.role = .target then persistPendingDownloads false
  else pumpUploads [] n.uploads

/-- `HandleCancel`: a source drops the upload; a target gives the download up and keeps the reason
as its last error. -/
def handleCancel (cancel : Cancel) : NodeM H Unit := do
  let n ← Exec.state
  if n.config.role = .target then
    match n.downloads.find? fun active => active.transferId = cancel.transferId with
    | none => Exec.raise (.invalidArgument "cancel does not match an active download")
    | some _ =>
      dbDo fun db => db.updateTransferState cancel.transferId .cancelled n.nowMs
      Exec.update fun n =>
        { n with
          downloads := n.downloads.eraseP fun active => active.transferId = cancel.transferId
          lastError := some cancel.reason }
  else
    Exec.update fun n =>
      { n with uploads := n.uploads.filter fun upload => upload.transferId ≠ cancel.transferId }

/-! ## Receiving -/

/-- The HELLO is from the configured peer. -/
def admitsHello (n : Node H) (hello : Hello) : Prop :=
  hello.taskId = n.config.taskId ∧ hello.deviceId = n.config.peerDeviceId ∧
    hello.authorizationDigest = n.config.authorizationDigest ∧ n.rolesCompatible hello.role

instance (n : Node H) (hello : Hello) : Decidable (n.admitsHello hello) :=
  inferInstanceAs (Decidable (_ ∧ _))

/-- `Receive` for HELLO.  A source answers with its manifest. -/
def receiveHello (hello : Hello) : NodeM H Unit := do
  let n ← Exec.state
  if ¬ n.admitsHello hello then Exec.raise (.invalidArgument "unauthorized_peer")
  else
    Exec.update fun n => { n with receivedHello := true }
    Exec.when (n.config.role = .source) do
      send (.hello (helloOf n.config))
      sendManifest

/-- The switch of `Receive`. -/
def receiveData (frame : Frame H) : NodeM H Unit := do
  let n ← Exec.state
  match frame with
  | .manifest manifest =>
    if n.config.role ≠ .target then Exec.raise (.invalidArgument "unexpected_manifest")
    else applyManifest manifest
  | .fileRequest request =>
    if n.config.role ≠ .source then Exec.raise (.invalidArgument "unexpected_file_request")
    else handleFileRequest request
  | .chunk chunk =>
    if n.config.role ≠ .target then Exec.raise (.invalidArgument "unexpected_chunk")
    else if blake3 chunk.bytes ≠ chunk.chunkHash then
      Exec.raise (.invalidArgument "chunk hash mismatch")
    else acceptChunk chunk
  | .cancel cancel => handleCancel cancel
  | .undecodable _ error => Exec.raise error
  | _ => Exec.raise (.invalidArgument "unexpected_frame")

/-- The body of `Receive`. -/
def dispatch (channel : Channel) (frame : Frame H) : NodeM H Unit :=
  if !frame.isAllowedOn channel then Exec.raise (.invalidArgument "wrong_channel")
  else
    match frame with
    | .malformed error => Exec.raise error
    | .hello hello => receiveHello hello
    | frame => do
      let n ← Exec.state
      if !n.started || !n.receivedHello then Exec.raise (.invalidArgument "unauthorized_peer")
      else receiveData frame

/-- `Receive`: an exception becomes the node's last error. -/
def receive (channel : Channel) (frame : Frame H) : NodeM H Unit :=
  Exec.orElse (dispatch channel frame) fun e =>
    Exec.update fun n => { n with lastError := some e.what }

/-! ## Runs -/

/-- What can happen to a node. -/
inductive Action (H : Type) where
  | start (env : Environment)
  | refreshSource (env : Environment)
  | pump (env : Environment)
  | receive (env : Environment) (channel : Channel) (frame : Frame H)
  /-- The destructor, and the constructor again. -/
  | shutdown (env : Environment)
  /-- The process dies between two calls, and the node is constructed again. -/
  | crash
  /-- Someone else changes the folder. -/
  | edit (folder : Folder)

/-- The call an action makes, and the machine's report during it. -/
def call (env : Environment) (m : NodeM H Unit) (n : Node H) : Node H := (m { n with env }).2

/-- One action.  An exception that a call throws goes to the caller; what it has changed stays. -/
def step (n : Node H) : Action H → Node H
  | .start env => n.call env start
  | .refreshSource env => n.call env refreshSource
  | .pump env => n.call env pump
  | .receive env channel frame => n.call env (receive channel frame)
  | .shutdown env => (n.call env (persistPendingDownloads true)).restart
  | .crash => n.restart
  | .edit folder => { n with folder }

end Node

theorem sampleTaskId_ne : ascii "t" ≠ [] := by decide
theorem sampleDeviceId_ne : ascii "s" ≠ [] := by decide
theorem samplePeerDeviceId_ne : ascii "a" ≠ [] := by decide
theorem sampleFingerprint_ne : ascii "F" ≠ [] := by decide
theorem sampleDigest_ne : ascii "D" ≠ [] := by decide

/-- The configuration of a sample node. -/
def Config.sample (role : Role) (hrole : role ≠ .peer) : Config where
  taskId := ascii "t"
  role := role
  deviceId := ascii "s"
  peerDeviceId := ascii "a"
  deviceFingerprint := ascii "F"
  authorizationDigest := ascii "D"
  role_ne := hrole
  taskId_ne := sampleTaskId_ne
  deviceId_ne := sampleDeviceId_ne
  peerDeviceId_ne := samplePeerDeviceId_ne
  deviceFingerprint_ne := sampleFingerprint_ne
  authorizationDigest_ne := sampleDigest_ne

/-- A sample node over a folder. -/
def Node.sample (role : Role) (hrole : role ≠ .peer) (folder : Folder) : Node Bytes :=
  .create (.sample role hrole) sampleEnvironment (fun i => List.replicate (i + 1) 1) (· + 1) 0
    .empty folder

end OneWay

end VeritasSync
