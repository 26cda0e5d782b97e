import VeritasSync.Sync.Negotiation
import VeritasSync.Sync.Remote

/-!
# Serving, pumping and receiving

The rest of the node: the upload side of transfers, the periodic `Pump`, and `Receive`, which hands
every frame to its function and turns an exception into the node's last error.

`Receive` is where the gates are.  A frame on the wrong channel and a frame before HELLO are refused
with a text of their own, in the order of the source; data that arrives while the rules are being
negotiated is dropped without a word.  An exception that leaves one of the handlers does not leave
`Receive`; it becomes the last error of the node, and from then on the handshake is no longer
complete.
-/

set_option autoImplicit false

namespace VeritasSync

namespace Node

variable {H : Type} [ContentHash H]

/-! ## Requests -/

/-- `HandleFileRequest`: an upload is opened, or the request is answered with a reason. -/
def handleFileRequest (request : FileRequest H) : NodeM H Unit := do
  let n ← Exec.state
  match n.sourceFiles.find? fun source => request.fileHash ≤ source.hash with
  | none => send (.cancel ⟨request.transferId, "source_missing"⟩)
  | some source =>
    if source.hash ≠ request.fileHash then send (.cancel ⟨request.transferId, "source_missing"⟩)
    else
      let session : UploadSession H :=
        ⟨⟨source.path, request.transferId, request.fileHash, none⟩, []⟩
      match session.queueRequested n.folder request with
      | .error _ => send (.cancel ⟨request.transferId, "source_changed"⟩)
      | .ok session =>
        Exec.update fun n => { n with uploads := n.uploads ++ [⟨request.transferId, session⟩] }

/-- `HandleCancel`: the upload or the download of the transfer is dropped. -/
def handleCancel (cancel : Cancel) : NodeM H Unit := do
  Exec.update fun n =>
    { n with uploads := n.uploads.filter fun upload => upload.transferId ≠ cancel.transferId }
  let n ← Exec.state
  match n.downloads.find? fun active => active.transferId = cancel.transferId with
  | none => pure ()
  | some _ =>
    dbDo fun db => db.updateTransferState cancel.transferId .cancelled n.nowMs
    Exec.update fun n =>
      { n with
        downloads := n.downloads.eraseP fun active => active.transferId = cancel.transferId }

/-- Hand a chunk to the transport, if there is one. -/
def sendChunk : Option (Chunk H) → NodeM H Unit
  | none => pure ()
  | some chunk => send (.chunk chunk)

/-- The loop of `Pump` over the uploads: `done` are the ones already served and kept. -/
def pumpUploads (done : List (PendingUpload H)) : List (PendingUpload H) → NodeM H Unit
  | [] => Exec.update fun n => { n with uploads := done }
  | upload :: rest => do
    let n ← Exec.state
    match upload.session.nextForTransport n.folder n.env.bufferedAmount with
    | (.error e, session) =>
      Exec.update fun n => { n with uploads := done ++ { upload with session } :: rest }
      Exec.raise e
    | (.ok next, session) =>
      sendChunk next
      if session.hasPending then pumpUploads (done ++ [{ upload with session }]) rest
      else pumpUploads done rest

/-- One round of the loop of `Pump` over the downloads. -/
def pumpDownload (index : Nat) : NodeM H Unit := do
  let n ← Exec.state
  match n.downloads[index]? with
  | none => pure ()
  | some download =>
    Exec.when (download.dirtyBytes ≥ persistBatchBytes ∧ download.dirtyChunks ≠ []) do
      persistAcceptedChunks download.receiver download.dirtyChunks
      Exec.update fun n =>
        { n with downloads := n.downloads.modify index ActiveDownload.persisted }

/-- `Pump`. -/
def pump : NodeM H Unit := do
  let n ← Exec.state
  Exec.when n.receivedHello retryPolicy
  let n ← Exec.state
  if n.policyPending || !n.policyReady then pure ()
  else
    pumpUploads [] n.uploads
    (List.range n.downloads.length).forM pumpDownload

/-! ## Receiving -/

/-- `Receive` for HELLO.  The first one is answered, and the negotiation of the rules begins with
it. -/
def receiveHello (hello : Hello) : NodeM H Unit := do
  let n ← Exec.state
  if hello.taskId ≠ n.config.taskId ∨ hello.role ≠ .peer ∨
      hello.deviceId ≠ n.config.peerDeviceId ∨
      hello.deviceFingerprint ≠ n.config.peerDeviceFingerprint ∨
      hello.authorizationDigest ≠ n.config.authorizationDigest then
    Exec.raise (.invalidArgument "unauthorized_peer")
  else
    Exec.update fun n => { n with receivedHello := true }
    if n.receivedHello then pure ()
    else
      send (.hello (helloOf n.config))
      sendPolicyHello

/-- `Receive` once the policy is settled. -/
def receiveData (frame : Frame H) : NodeM H Unit :=
  match frame with
  | .versionManifest manifest => do
    Exec.check fun _ => checkManifest manifest
    applyManifest manifest
  | .fileRequest request => handleFileRequest request
  | .chunk chunk =>
    if blake3 chunk.bytes ≠ chunk.chunkHash then
      Exec.raise (.invalidArgument "chunk hash mismatch")
    else acceptChunk chunk
  | .cancel cancel => handleCancel cancel
  | .undecodable error => Exec.raise error
  | _ => Exec.raise (.invalidArgument "unexpected_frame")

/-- The frame is a manifest. -/
def isManifest : Frame H → Bool
  | .versionManifest _ => true
  | _ => false

/-- `Receive` for a frame that is neither a HELLO nor about the policy. -/
def receiveGated (frame : Frame H) : NodeM H Unit := do
  let n ← Exec.state
  if !n.started || !n.receivedHello then Exec.raise (.invalidArgument "unauthorized_peer")
  else if !n.policyReady || n.policyPending then
    Exec.update fun n =>
      { n with trace := { n.trace with
          missedManifest := n.trace.missedManifest || isManifest frame } }
  else receiveData frame

/-- `Receive` for a policy frame. -/
def receivePolicy (type : PolicyFrame) (message : IgnorePolicyMessage H) : NodeM H Unit := do
  let n ← Exec.state
  if !n.started || !n.receivedHello then Exec.raise (.invalidArgument "unauthorized_peer")
  else handlePolicy type message

/-- The body of `Receive`. -/
def dispatch (channel : Channel) (frame : Frame H) : NodeM H Unit :=
  if !frame.isAllowedOn channel then Exec.raise (.invalidArgument "wrong_channel")
  else
    match frame with
    | .malformed error => Exec.raise error
    | .hello hello => receiveHello hello
    | .policy type message => receivePolicy type message
    | frame => receiveGated frame

/-- `Receive`: an exception becomes the node's last error. -/
def receive (channel : Channel) (frame : Frame H) : NodeM H Unit :=
  Exec.orElse (dispatch channel frame) fun e =>
    Exec.update fun n => { n with lastError := some e }

end Node

end VeritasSync
