import VeritasSync.Sync.Source

/-!
# One source and several targets

`MultiTargetSource`, member function by member function.  A source owns the task root and a list of
peers, each with its own transport; a peer is known by its device, which `AddTarget` keeps unique.

What a transport does is part of the environment of a call: the amounts it reports as buffered, and
whether it takes a frame (`WebRtcTransport::Send` throws when a peer's send budget is exceeded).
The frames handed to the transports are logged in `sent`, with the device each was for.

`scans` is bookkeeping for statements about runs; the code never reads it.

There is one source and it scans once, whatever the number of its targets.  A target has a place in
the list, a session of its own and a transport of its own; but the functions that serve the targets
are loops over that list, and an exception in one round is an exception of the loop.  The model
keeps the loops as they are.
-/

set_option autoImplicit false

namespace VeritasSync

namespace MultiTarget

open OneWay (Manifest)

/-- `sync::MultiTargetSourceConfig`, as the constructor admits it. -/
structure Config where
  taskId : Bytes
  deviceId : DeviceId
  deviceFingerprint : Bytes
  taskId_ne : taskId ≠ []
  deviceId_ne : deviceId ≠ []
  deviceFingerprint_ne : deviceFingerprint ≠ []

/-- `sync::MultiTargetPeerConfig`: who a target must prove to be. -/
structure PeerConfig where
  deviceId : DeviceId
  deviceFingerprint : Bytes
  authorizationDigest : Bytes
  deriving DecidableEq

/-- `MultiTargetSource::Peer`: a target with what it has requested. -/
structure Peer (H : Type) where
  config : PeerConfig
  receivedHello : Bool
  available : Bool
  uploads : List (PendingUpload H)
  lastError : Option String
  deriving DecidableEq

/-- What the machine reports during one call. -/
structure Environment where
  /-- `NowMilliseconds`, a time after 1970. -/
  nowMs : { t : Int // 0 < t }
  /-- The time stamps of files and directories. -/
  mtime : Path → Int
  /-- `BufferedAmount` of the bulk channel of a device's transport, for each upload that is served;
  the uploads are told apart by the number of uploads after them. -/
  buffered : DeviceId → Nat → Nat
  /-- The transport of a device throws when it is handed a frame after so many others. -/
  refuses : DeviceId → Nat → Bool

/-- A `MultiTargetSource` and what it acts on. -/
structure Source (H : Type) where
  config : Config
  env : Environment
  uuid : Nat → Bytes
  uuidsUsed : Nat
  db : Database H
  folder : Folder
  started : Bool
  manifestRevision : UInt64
  sourceManifest : Manifest H
  sourceFiles : List (SourceFile H)
  peers : List (Peer H)
  /-- The frames handed to the transports. -/
  sent : List (DeviceId × OneWay.Frame H)
  /-- The manifests of the scans that have been completed. -/
  scans : List (Manifest H)

/-- A member function of the source. -/
abbrev SourceM (H α : Type) := Exec (Source H) Error α

namespace Source

variable {H : Type}

/-- A source that has just been constructed over a database and a folder.
`source_manifest_.revision` has no initializer. -/
def create (config : Config) (env : Environment) (uuid : Nat → Bytes) (initialRevision : UInt64)
    (db : Database H) (folder : Folder) : Source H where
  config := config
  env := env
  uuid := uuid
  uuidsUsed := 0
  db := db
  folder := folder
  started := false
  manifestRevision := 0
  sourceManifest := ⟨initialRevision, []⟩
  sourceFiles := []
  peers := []
  sent := []
  scans := []

/-! ## Peers -/

/-- `FindPeer`: the target with this device, if it is in the list. -/
def findPeer (s : Source H) (device : DeviceId) : Option (Peer H) :=
  s.peers.find? fun peer => peer.config.deviceId = device

/-- Change the members of a peer. -/
def updatePeer (device : DeviceId) (f : Peer H → Peer H) : SourceM H Unit := Exec.update fun s =>
  { s with peers := s.peers.map fun peer => if peer.config.deviceId = device then f peer else peer }

/-- The frames handed to the transport of a device. -/
def sentTo (s : Source H) (device : DeviceId) : List (OneWay.Frame H) :=
  (s.sent.filter fun entry => entry.1 = device).map Prod.snd

/-- `Send`: the transport may refuse the frame. -/
def send (device : DeviceId) (frame : OneWay.Frame H) : SourceM H Unit := do
  let s ← Exec.state
  if s.env.refuses device (s.sentTo device).length then
    Exec.raise (.logicError "per-peer WebRTC send budget exceeded")
  else Exec.update fun s => { s with sent := s.sent ++ [(device, frame)] }

/-- `SendHello`: the source introduces itself to a target. -/
def sendHello (peer : PeerConfig) : SourceM H Unit := do
  let s ← Exec.state
  send peer.deviceId (.hello ⟨s.config.taskId, .source, s.config.deviceId,
    s.config.deviceFingerprint, peer.authorizationDigest⟩)

/-- `SendManifest`: the manifest of the last scan, whether there has been one or not. -/
def sendManifest (device : DeviceId) : SourceM H Unit := do
  let s ← Exec.state
  Exec.check fun s => s.sourceManifest.encode
  send device (.manifest s.sourceManifest)

/-- The devices of the peers, in the order of the loops over them. -/
def devices (s : Source H) : List DeviceId := s.peers.map fun peer => peer.config.deviceId

variable [ContentHash H]

/-! ## Scanning -/

/-- The body of the last loop of `RefreshSource`. -/
def announce (device : DeviceId) : SourceM H Unit := do
  let s ← Exec.state
  match s.findPeer device with
  | none => pure ()
  | some peer => Exec.when (peer.receivedHello ∧ peer.available) (sendManifest device)

/-- `RefreshSource` up to its last loop. -/
def scan : SourceM H Unit := do
  let snapshot ← Exec.check fun s => OneWay.scanSource s.folder s.env.mtime
  let (_, used) ← Exec.atomic fun s =>
    (reconcile false s.db snapshot
      ⟨s.config.taskId, s.config.deviceId, (s.manifestRevision + 1).toNat, s.env.nowMs.1⟩
      s.uuid s.uuidsUsed).map fun r => (r.1, { s with db := r.2 })
  Exec.update fun s =>
    { s with
      uuidsUsed := used
      manifestRevision := s.manifestRevision + 1
      sourceManifest := ⟨s.manifestRevision + 1, OneWay.announcedEntries snapshot⟩
      sourceFiles := Node.sourceFilesOf (snapshot.takeWhile OneWay.isHashed) }
  if !snapshot.all OneWay.isHashed then
    Exec.raise (.logicError "source file snapshot has no hash")
  else Exec.update fun s => { s with scans := s.scans ++ [s.sourceManifest] }

/-- `RefreshSource`: a scan, and then the new manifest for each target that can take it.  A
transport that throws ends the loop. -/
def refreshSource : SourceM H Unit := do
  scan
  let s ← Exec.state
  s.devices.forM announce

/-- `AddTarget`.  The first target of a source that has been started makes it scan. -/
def addTarget (config : PeerConfig) : SourceM H Unit := do
  let s ← Exec.state
  if config.deviceId = [] ∨ config.deviceFingerprint = [] ∨ config.authorizationDigest = [] ∨
      (s.findPeer config.deviceId).isSome then
    Exec.raise (.invalidArgument "target identity is invalid or duplicate")
  else
    Exec.update fun s => { s with peers := s.peers ++ [⟨config, false, true, [], none⟩] }
    Exec.when s.started do
      Exec.when (s.peers = []) refreshSource
      sendHello config

/-- `Start`: the first scan comes before the HELLOs. -/
def start : SourceM H Unit := do
  let s ← Exec.state
  if s.started then pure ()
  else if s.peers = [] then
    Exec.raise (.logicError "multi-target source requires at least one target")
  else
    Exec.update fun s => { s with started := true }
    refreshSource
    (s.peers.map Peer.config).forM sendHello

/-- `RemoveTarget`: the peer with its session and its uploads is forgotten. -/
def removeTarget (device : DeviceId) : SourceM H Unit := Exec.update fun s =>
  { s with peers := s.peers.eraseP fun peer => peer.config.deviceId = device }

/-- `SetTargetAvailable`.  A target that becomes available again is sent the manifest it may have
missed. -/
def setTargetAvailable (device : DeviceId) (available : Bool) : SourceM H Unit := do
  let s ← Exec.state
  match s.findPeer device with
  | none => pure ()
  | some peer =>
    if peer.available = available then pure ()
    else
      updatePeer device fun peer => { peer with available }
      Exec.when (available ∧ peer.receivedHello) (sendManifest device)

/-! ## Uploads -/

/-- Hand a chunk to the transport, if there is one. -/
def sendChunk (device : DeviceId) : Option (Chunk H) → SourceM H Unit
  | none => pure ()
  | some chunk => send device (.chunk chunk)

/-- The loop of `Pump` over the uploads of a peer: `done` are the ones already served and kept. -/
def pumpUploads (device : DeviceId) (done : List (PendingUpload H)) :
    List (PendingUpload H) → SourceM H Unit
  | [] => pure ()
  | upload :: rest => do
    let s ← Exec.state
    let (result, session) :=
      upload.session.nextForTransport s.folder (s.env.buffered device rest.length)
    updatePeer device fun peer => { peer with uploads := done ++ { upload with session } :: rest }
    match result with
    | .error e => Exec.raise e
    | .ok next =>
      sendChunk device next
      if session.hasPending then pumpUploads device (done ++ [{ upload with session }]) rest
      else
        updatePeer device fun peer => { peer with uploads := done ++ rest }
        pumpUploads device done rest

/-- The body of the loop of `Pump` over the peers. -/
def pumpPeer (device : DeviceId) : SourceM H Unit := do
  let s ← Exec.state
  match s.findPeer device with
  | none => pure ()
  | some peer => Exec.when peer.available (pumpUploads device [] peer.uploads)

/-- `Pump`: each available target is served, in the order of the list.  An exception of one session
ends the loop. -/
def pump : SourceM H Unit := do
  let s ← Exec.state
  s.devices.forM pumpPeer

/-- `HandleFileRequest`: an upload is opened, in place of one of the same transfer, or the request
is answered with a reason. -/
def handleFileRequest (device : DeviceId) (request : FileRequest H) : SourceM H Unit := do
  let s ← Exec.state
  match OneWay.findSource s.sourceFiles request.fileHash with
  | none => send device (.cancel ⟨request.transferId, "source_missing"⟩)
  | some source =>
    updatePeer device fun peer =>
      { peer with
        uploads := peer.uploads.filter fun upload => upload.transferId ≠ request.transferId }
    match OneWay.openSession source s.folder request with
    | .error _ => send device (.cancel ⟨request.transferId, "source_changed"⟩)
    | .ok session =>
      updatePeer device fun peer =>
        { peer with uploads := peer.uploads ++ [⟨request.transferId, session⟩] }

/-- `HandleCancel`: the upload of the transfer is dropped. -/
def handleCancel (device : DeviceId) (cancel : Cancel) : SourceM H Unit :=
  updatePeer device fun peer =>
    { peer with
      uploads := peer.uploads.filter fun upload => upload.transferId ≠ cancel.transferId }

/-! ## Receiving -/

/-- The HELLO is from the peer. -/
def admitsHello (s : Source H) (peer : PeerConfig) (hello : Hello) : Prop :=
  hello.taskId = s.config.taskId ∧ hello.deviceId = peer.deviceId ∧
    hello.deviceFingerprint = peer.deviceFingerprint ∧
    hello.authorizationDigest = peer.authorizationDigest ∧ hello.role = .target

instance (s : Source H) (peer : PeerConfig) (hello : Hello) :
    Decidable (s.admitsHello peer hello) := inferInstanceAs (Decidable (_ ∧ _))

/-- `Receive` for HELLO.  A target that proves to be the one is sent a HELLO and the manifest at
once. -/
def receiveHello (peer : PeerConfig) (hello : Hello) : SourceM H Unit := do
  let s ← Exec.state
  if ¬ s.admitsHello peer hello then Exec.raise (.invalidArgument "unauthorized_peer")
  else
    updatePeer peer.deviceId fun peer => { peer with receivedHello := true }
    sendHello peer
    sendManifest peer.deviceId

/-- The switch of `Receive`. -/
def receiveData (device : DeviceId) : OneWay.Frame H → SourceM H Unit
  | .fileRequest request => handleFileRequest device request
  | .cancel cancel => handleCancel device cancel
  | .undecodable _ error => Exec.raise error
  | _ => Exec.raise (.invalidArgument "target_write_forbidden")

/-- The body of `Receive`. -/
def dispatch (peer : Peer H) (channel : Channel) (frame : OneWay.Frame H) : SourceM H Unit :=
  if !frame.isAllowedOn channel then Exec.raise (.invalidArgument "wrong_channel")
  else
    match frame with
    | .malformed error => Exec.raise error
    | .hello hello => receiveHello peer.config hello
    | frame => do
      let s ← Exec.state
      if !s.started || !peer.receivedHello then
        Exec.raise (.invalidArgument "unauthorized_peer")
      else receiveData peer.config.deviceId frame

/-- `Receive` from a device: an exception becomes the peer's last error.  Without a peer there is no
callback. -/
def receive (device : DeviceId) (channel : Channel) (frame : OneWay.Frame H) : SourceM H Unit := do
  let s ← Exec.state
  match s.findPeer device with
  | none => pure ()
  | some peer =>
    Exec.orElse (dispatch peer channel frame) fun e =>
      updatePeer device fun peer => { peer with lastError := some e.what }

/-! ## Runs -/

/-- What can happen to a source. -/
inductive Action (H : Type) where
  | addTarget (env : Environment) (config : PeerConfig)
  | removeTarget (device : DeviceId)
  | start (env : Environment)
  | refreshSource (env : Environment)
  | pump (env : Environment)
  | setTargetAvailable (env : Environment) (device : DeviceId) (available : Bool)
  | receive (env : Environment) (device : DeviceId) (channel : Channel) (frame : OneWay.Frame H)
  /-- Someone else changes the folder. -/
  | edit (folder : Folder)

/-- A call, and the machine's report during it. -/
def call (env : Environment) (m : SourceM H Unit) (s : Source H) : Source H := (m { s with env }).2

/-- One action.  An exception that a call throws goes to the caller; what it has changed stays. -/
def step (s : Source H) : Action H → Source H
  | .addTarget env config => s.call env (addTarget config)
  | .removeTarget device => (removeTarget device s).2
  | .start env => s.call env start
  | .refreshSource env => s.call env refreshSource
  | .pump env => s.call env pump
  | .setTargetAvailable env device available => s.call env (setTargetAvailable device available)
  | .receive env device channel frame => s.call env (receive device channel frame)
  | .edit folder => { s with folder }

end Source

end MultiTarget

end VeritasSync
