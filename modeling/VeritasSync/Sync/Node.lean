import VeritasSync.Lib.Exec
import VeritasSync.Sync.SnapshotReconciler
import VeritasSync.Sync.Transfer
import VeritasSync.Sync.VersionResolution

/-!
# A bidirectional node

`BidirectionalSyncNode`, member function by member function.  A `Node` is everything one node can
see: its configuration, its rows of the database, its folder, its own members, and the frames it
has handed to the transport.  A member function is an `Exec` over it, so an exception leaves behind
what had already been written.

## What stands in for the machine

* `Environment` is what the machine reports during a call: the two clocks, the time stamps of files
  and the bytes buffered by the transport.  A call sees one value of each.
* `uuid` and `transferId` are the identifiers `NewUuidV4` and `NewTransferId` are going to return,
  with counters for the ones already drawn.
* `faultAfter` is the number of storage operations that still succeed.  Every write to the database
  or the folder goes through `durable`, which throws once the number is used up.  A process that
  dies in the middle of a call is a fault followed by `restart`.

`trace` is bookkeeping for statements about runs; the code never reads it.

## How the source is divided

The member functions are spread over several modules by what they are about: local changes in
`VeritasSync.Sync.Refresh`, remote ones in `VeritasSync.Sync.Remote`, the negotiation of the rules
in `VeritasSync.Sync.Negotiation`, serving and receiving in `VeritasSync.Sync.Receive`.  This module
has the state, what every function uses, and what a node sends.  Each definition bears the name of
the function it is translated from, and where one function of the source is several here, because
its parts are used apart or have lemmas of their own, the docstring of each part says which part it
is.
-/

set_option autoImplicit false

namespace VeritasSync

/-- `sync::BidirectionalSyncConfig`, as the constructor of the node admits it. -/
structure Config where
  taskId : Bytes
  deviceId : DeviceId
  peerDeviceId : DeviceId
  deviceFingerprint : Bytes
  peerDeviceFingerprint : Bytes
  authorizationDigest : Bytes
  taskId_ne : taskId ≠ []
  deviceId_ne : deviceId ≠ []
  peerDeviceId_ne : peerDeviceId ≠ []
  deviceFingerprint_ne : deviceFingerprint ≠ []
  peerDeviceFingerprint_ne : peerDeviceFingerprint ≠ []
  authorizationDigest_ne : authorizationDigest ≠ []

/-- What the machine reports during one call. -/
structure Environment where
  /-- `NowMilliseconds`, a time after 1970. -/
  nowMs : { t : Int // 0 < t }
  /-- `steady_clock::now`, in milliseconds. -/
  steadyNow : Nat
  /-- The time stamps of files and directories. -/
  mtime : Path → Int
  /-- `Transport::BufferedAmount` of the bulk channel. -/
  bufferedAmount : Nat

/-- `BidirectionalSyncNode::SourceFile`, by its path below the task root. -/
structure SourceFile (H : Type) where
  path : Path
  hash : H
  deriving DecidableEq

/-- `BidirectionalSyncNode::PendingUpload`: a transfer and the session that serves it. -/
structure PendingUpload (H : Type) where
  transferId : TransferId
  session : UploadSession H
  deriving DecidableEq

/-- `BidirectionalSyncNode::ActiveDownload`: a file that is arriving, with its counts of chunks. -/
structure ActiveDownload (H : Type) where
  entry : VersionedManifestEntry H
  destinationPath : Path
  applyFormalRecord : Bool
  hash : H
  transferId : TransferId
  chunkCount : Nat
  receiver : DownloadReceiver H
  durableChunks : Nat
  dirtyBytes : Nat
  dirtyChunks : List Nat
  /-- The version the entry was resolved against; not a member of the source. -/
  against : Option VersionId
  deriving DecidableEq

/-- The members of a download once its dirty chunks are durable. -/
def ActiveDownload.persisted {H : Type} (download : ActiveDownload H) : ActiveDownload H :=
  { download with
    durableChunks := download.durableChunks + download.dirtyChunks.length
    dirtyBytes := 0
    dirtyChunks := [] }

/-- The members of a download once a chunk has been written. -/
def ActiveDownload.accept {H : Type} (download : ActiveDownload H) (index length : Nat) :
    ActiveDownload H :=
  { download with
    receiver := download.receiver.accept index length
    dirtyBytes :=
      if index ∈ download.dirtyChunks then download.dirtyBytes else download.dirtyBytes + length
    dirtyChunks :=
      if index ∈ download.dirtyChunks then download.dirtyChunks
      else download.dirtyChunks ++ [index] }

/-- What has happened to a node so far, for statements about runs. -/
structure Trace (H : Type) where
  /-- The manifest entries whose clock the node has observed. -/
  observed : List (VersionedManifestEntry H)
  /-- The paths and versions whose file was moved to a conflict path. -/
  preserved : List (Path × VersionId)
  /-- The manifest the node sent last. -/
  sentManifest : Option (VersionedManifest H)
  /-- The manifest the node applied last. -/
  appliedManifest : Option (VersionedManifest H)
  /-- The node has dropped a manifest since it applied one. -/
  missedManifest : Bool
  deriving DecidableEq

/-- A `BidirectionalSyncNode` and what it acts on. -/
structure Node (H : Type) where
  config : Config
  env : Environment
  uuid : Nat → Bytes
  uuidsUsed : Nat
  transferId : Nat → TransferId
  transferIdsUsed : Nat
  faultAfter : Option Nat
  db : Database H
  folder : Folder
  started : Bool
  receivedHello : Bool
  receivedManifest : Bool
  policyReady : Bool
  /-- `policy_hash_`; `none` is the empty text it starts with. -/
  policyHash : Option H
  nextPolicyRetry : Nat
  manifestRevision : UInt64
  sourceFiles : List (SourceFile H)
  uploads : List (PendingUpload H)
  downloads : List (ActiveDownload H)
  lastError : Option Error
  /-- The frames handed to the transport and not yet taken from it. -/
  out : List (Frame H)
  trace : Trace H

/-- A member function of the node. -/
abbrev NodeM (H α : Type) := Exec (Node H) Error α

namespace Node

variable {H α : Type}

/-- A node that has just been constructed, or constructed again after the process died: the
database and the folder are as they were. -/
def restart (n : Node H) : Node H :=
  { n with
    faultAfter := none
    started := false
    receivedHello := false
    receivedManifest := false
    policyReady := false
    policyHash := none
    nextPolicyRetry := 0
    manifestRevision := 0
    sourceFiles := []
    uploads := []
    downloads := []
    lastError := none
    out := [] }

/-! ## Primitives

All access to the database and to the folder goes through `durable`.  This is what makes storage
failures a matter of one definition: a statement about any function that holds for every
`faultAfter` holds wherever the storage fails, and wherever the process dies. -/

/-- The exception of a storage operation that fails for no reason of the program's. -/
def storageFailure : Error := .runtimeError "storage failure"

/-- One more storage operation has been made. -/
def spend (n : Node H) : Node H := { n with faultAfter := n.faultAfter.map fun k => k - 1 }

/-- A storage operation.  One of them fails if the node has been told so, and that is the only way
in which the storage fails. -/
def durable (f : Node H → Except Error (α × Node H)) : NodeM H α := fun n =>
  if n.faultAfter = some 0 then (.error storageFailure, n) else Exec.atomic f n.spend

/-- A database operation with a result. -/
def dbGet (f : Database H → Except Error (α × Database H)) : NodeM H α :=
  durable fun n => (f n.db).map fun r => (r.1, { n with db := r.2 })

/-- A database operation, which counts as one storage operation. -/
def dbDo (f : Database H → Except Error (Database H)) : NodeM H Unit :=
  durable fun n => (f n.db).map fun db => ((), { n with db := db })

/-- A folder operation, which counts as one storage operation. -/
def folderDo (f : Folder → Except Error Folder) : NodeM H Unit :=
  durable fun n => (f n.folder).map fun folder => ((), { n with folder := folder })

/-- `Send`, on the channel the frame's type belongs to. -/
def send (frame : Frame H) : NodeM H Unit := Exec.update fun n => { n with out := n.out ++ [frame] }

/-- `common::NewUuidV4`: the next of the identifiers that the node has been given. -/
def newUuidV4 : NodeM H Bytes := fun n =>
  (.ok (n.uuid n.uuidsUsed), { n with uuidsUsed := n.uuidsUsed + 1 })

/-- `common::NewTransferId`: the next of the identifiers that the node has been given. -/
def newTransferId : NodeM H TransferId := fun n =>
  (.ok (n.transferId n.transferIdsUsed), { n with transferIdsUsed := n.transferIdsUsed + 1 })

/-- `NowMilliseconds`, which does not change during a call. -/
def nowMs (n : Node H) : Int := n.env.nowMs.1

section Rules

open Exec

variable {Q : α → Node H → Prop} {E : Error → Node H → Prop} {n : Node H}
  {R : Node H → Node H → Prop} [IsPreorder (Node H) R]

omit [IsPreorder (Node H) R]

/-- The rule for a storage operation that computes a value and stores it. -/
theorem wp_durable {γ : Type} {f : Node H → Except Error γ} {g : Node H → γ → α × Node H}
    (hfault : E storageFailure n) (herr : ∀ e, f n.spend = .error e → E e n.spend)
    (hok : ∀ c, f n.spend = .ok c → Q (g n.spend c).1 (g n.spend c).2) :
    Wp (durable fun n => (f n).map (g n)) Q E n := by
  by_cases hzero : n.faultAfter = some 0
  · simpa only [Wp, durable, if_pos hzero] using hfault
  · simp only [Wp, durable, if_neg hzero, atomic]
    cases hf : f n.spend with
    | error e => exact herr e hf
    | ok c => exact hok c hf

theorem wp_dbGet {f : Database H → Except Error (α × Database H)} (hfault : E storageFailure n)
    (herr : ∀ e, f n.db = .error e → E e n.spend)
    (hok : ∀ a db, f n.db = .ok (a, db) → Q a { n.spend with db := db }) : Wp (dbGet f) Q E n :=
  wp_durable hfault herr fun r hr => hok r.1 r.2 hr

theorem wp_dbDo {f : Database H → Except Error (Database H)} {Q : Unit → Node H → Prop}
    (hfault : E storageFailure n) (herr : ∀ e, f n.db = .error e → E e n.spend)
    (hok : ∀ db, f n.db = .ok db → Q () { n.spend with db := db }) : Wp (dbDo f) Q E n :=
  wp_durable hfault herr hok

theorem wp_folderDo {f : Folder → Except Error Folder} {Q : Unit → Node H → Prop}
    (hfault : E storageFailure n) (herr : ∀ e, f n.folder = .error e → E e n.spend)
    (hok : ∀ folder, f n.folder = .ok folder → Q () { n.spend with folder := folder }) :
    Wp (folderDo f) Q E n :=
  wp_durable hfault herr hok

@[simp] theorem wp_send {Q : Unit → Node H → Prop} (frame : Frame H) :
    Wp (send frame) Q E n ↔ Q () { n with out := n.out ++ [frame] } := Iff.rfl

@[simp] theorem wp_newUuidV4 {Q : Bytes → Node H → Prop} :
    Wp newUuidV4 Q E n ↔ Q (n.uuid n.uuidsUsed) { n with uuidsUsed := n.uuidsUsed + 1 } := Iff.rfl

@[simp] theorem wp_newTransferId {Q : TransferId → Node H → Prop} :
    Wp newTransferId Q E n ↔
      Q (n.transferId n.transferIdsUsed) { n with transferIdsUsed := n.transferIdsUsed + 1 } :=
  Iff.rfl

variable [IsPreorder (Node H) R]

theorem within_dbGet {f : Database H → Except Error (α × Database H)}
    (hspend : ∀ n : Node H, R n n.spend)
    (h : ∀ (n : Node H) a db, f n.db = .ok (a, db) → R n { n with db := db }) :
    Within R (dbGet f) := by
  refine within_of_wp fun n => wp_dbGet (refl_of R n) (fun _ _ => hspend n) fun a db hf => ?_
  exact trans_of R (hspend n) (h n.spend a db hf)

theorem within_dbDo {f : Database H → Except Error (Database H)}
    (hspend : ∀ n : Node H, R n n.spend)
    (h : ∀ (n : Node H) db, f n.db = .ok db → R n { n with db := db }) : Within R (dbDo f) := by
  refine within_of_wp fun n => wp_dbDo (refl_of R n) (fun _ _ => hspend n) fun db hf => ?_
  exact trans_of R (hspend n) (h n.spend db hf)

theorem within_folderDo {f : Folder → Except Error Folder}
    (hspend : ∀ n : Node H, R n n.spend)
    (h : ∀ (n : Node H) folder, f n.folder = .ok folder → R n { n with folder := folder }) :
    Within R (folderDo f) := by
  refine within_of_wp fun n => wp_folderDo (refl_of R n) (fun _ _ => hspend n) fun folder hf => ?_
  exact trans_of R (hspend n) (h n.spend folder hf)

end Rules

/-! ### Evaluation when the storage does not fail -/

section Evaluation

theorem spend_eq_self {n : Node H} (h : n.faultAfter = none) : n.spend = n := by
  cases n with
  | mk config env uuid uuidsUsed transferId transferIdsUsed faultAfter =>
    cases h
    rfl

theorem durable_apply {f : Node H → Except Error (α × Node H)} {n : Node H}
    (h : n.faultAfter = none) : durable f n = Exec.atomic f n := by
  have hzero : n.faultAfter ≠ some 0 := by
    rw [h]
    nofun
  rw [durable, if_neg hzero, spend_eq_self h]

theorem dbGet_eq_ok {f : Database H → Except Error (α × Database H)} {n : Node H} {a : α}
    {db : Database H} (h : n.faultAfter = none) (hf : f n.db = .ok (a, db)) :
    dbGet f n = (.ok a, { n with db := db }) := by
  rw [dbGet, durable_apply h, Exec.atomic, hf]
  rfl

theorem dbDo_eq_ok {f : Database H → Except Error (Database H)} {n : Node H} {db : Database H}
    (h : n.faultAfter = none) (hf : f n.db = .ok db) :
      dbDo f n = (.ok (), { n with db := db }) := by
  rw [dbDo, durable_apply h, Exec.atomic, hf]
  rfl

end Evaluation

variable [ContentHash H]

/-! ## State queries -/

/-- `PolicyPending`: there is a proposal that has not been applied.  Until it is, nothing else is
done. -/
def policyPending (n : Node H) : Bool :=
  match n.db.findPendingIgnorePolicy with
  | none => false
  | some pending => pending.state ≠ .applied

/-- `HandshakeComplete`: the peer has introduced itself, and there has been no error. -/
def handshakeComplete (n : Node H) : Bool := n.started && n.receivedHello && n.lastError.isNone

/-- `IgnorePolicy::HashRules(IgnorePolicy::ReadRules(task_root))`: what the two peers compare. -/
def rulesHash (n : Node H) : Except Error H := do
  let rules ← n.folder.readRules
  pure (blake3 rules)

/-! ## Sending -/

/-- The entry of a record whose lineage row has the given parent. -/
def entryOf (record : FileRecord H) (parent : Option VersionId) : VersionedManifestEntry H :=
  { relativePath := record.relativePath, kind := record.kind, size := record.size
    contentHash := if record.kind = .file then record.contentHash else none
    versionId := record.versionId, originDeviceId := record.originDeviceId
    logicalClock := record.logicalClock, parentVersionId := parent.getD []
    deletedAtMs := record.deletedAtMs.map fun t => (t % 2 ^ 64).toNat }

/-- The entry of one record in a manifest. -/
def manifestEntry (db : Database H) (record : FileRecord H) :
    Except Error (VersionedManifestEntry H) :=
  match db.lineage.find record.versionId with
  | none => .error (.runtimeError "local record has no version lineage")
  | some parent =>
    if record.kind = .file ∧ record.contentHash.isNone then
      .error (.invalidArgument "content hash length is invalid")
    else .ok (entryOf record parent)

/-- The entries of a manifest: the records that are not ignored. -/
def manifestEntries (db : Database H) (rules : IgnoreRules) :
    List (FileRecord H) → Except Error (List (VersionedManifestEntry H))
  | [] => .ok []
  | record :: rest => do
    if ← rules.isIgnored record.relativePath then manifestEntries db rules rest
    else
      let entry ← manifestEntry db record
      let entries ← manifestEntries db rules rest
      pure (entry :: entries)

/-- `SendManifest`: the records with their lineage, but for those that the rules exclude.  Nothing
is sent while rules are being negotiated. -/
def sendManifest : NodeM H Unit := do
  let n ← Exec.state
  if !n.policyReady || n.policyPending then pure ()
  else
    Exec.update fun n => { n with manifestRevision := n.manifestRevision + 1 }
    let rules ← Exec.check fun n => n.folder.loadRules
    let entries ← Exec.check fun n => manifestEntries n.db rules n.db.listFileRecords
    let manifest : VersionedManifest H := ⟨n.manifestRevision + 1, entries⟩
    Exec.check fun _ => checkManifest manifest
    send (.versionManifest manifest)
    Exec.update fun n => { n with trace := { n.trace with sentManifest := some manifest } }

/-- `SendPolicyHello`: the hash of the rules, and the proposal that is pending here. -/
def sendPolicyHello : NodeM H Unit := do
  let n ← Exec.state
  let hash ← Exec.check rulesHash
  let proposalId := (n.db.findPendingIgnorePolicy.map PendingIgnorePolicy.proposalId).getD []
  send (.policy .hello ⟨proposalId, hash, [], .manual⟩)

/-- The HELLO of a node. -/
def helloOf (config : Config) : Hello :=
  ⟨config.taskId, .peer, config.deviceId, config.deviceFingerprint, config.authorizationDigest⟩

end Node

end VeritasSync
