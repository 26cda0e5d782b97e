import VeritasSync.Sync.World

/-!
# What each part of the node can touch

The functions of a node fall into three groups, and each group leaves most of the node alone.

* The negotiation of the rule file moves along `ControlMove`: records, lineage, clock, tree,
  transfers and sessions stay as they are, and only HELLO and policy frames are sent.
* A scan moves along `LocalMove`: the folder, the policy record and all sessions stay as they are,
  and only manifests are sent.
* Applying remote changes is made of the steps that `TransferMoves`, `EntryMoves` and
  `ManifestMoves` list; a relation that admits them is respected by the functions above.

`within_receive_of_moves` and `within_call` put the groups together: a relation that each group
respects is respected by every step of a node.

The lemmas below are not about anything in particular.  They say that a function is made of certain
steps, so that a relation which each step respects is respected by the function; which relation that
is, is up to the caller.  Proofs about the whole node would otherwise walk through the same
functions once for each invariant.
-/

set_option autoImplicit false
set_option linter.unusedSectionVars false

namespace VeritasSync

namespace Node

open Exec

variable {H : Type}

/-- The frames sent between two states satisfy `P`. -/
def Sends (P : Frame H → Prop) (n n' : Node H) : Prop :=
  ∃ frames, n'.out = n.out ++ frames ∧ ∀ f ∈ frames, P f

theorem Sends.refl {P : Frame H → Prop} {n n' : Node H} (h : n'.out = n.out) : Sends P n n' :=
  ⟨[], by rw [h, List.append_nil], nofun⟩

theorem Sends.trans {P : Frame H → Prop} {n n' n'' : Node H} (h : Sends P n n')
    (h' : Sends P n' n'') : Sends P n n'' := by
  obtain ⟨l, hl, hlP⟩ := h
  obtain ⟨l', hl', hlP'⟩ := h'
  refine ⟨l ++ l', by rw [hl', hl, List.append_assoc], fun f hf => ?_⟩
  rcases List.mem_append.mp hf with hf | hf
  · exact hlP f hf
  · exact hlP' f hf

theorem Sends.one {P : Frame H → Prop} {n : Node H} {f : Frame H} (h : P f) :
    Sends P n { n with out := n.out ++ [f] } :=
  ⟨[f], rfl, fun _ hg => List.mem_singleton.mp hg ▸ h⟩

/-- What a node was set up with. -/
def identity (n : Node H) : Config × (Nat → Bytes) := (n.config, n.uuid)

/-! ## Control -/

/-- What a node knows about the data it synchronises. -/
structure DataView (H : Type) where
  config : Config
  env : Environment
  uuid : Nat → Bytes
  transferId : Nat → TransferId
  transferIdsUsed : Nat
  records : OrdMap Path (FileRecord H)
  lineage : OrdMap VersionId (Option VersionId)
  logicalClock : Nat
  conflicts : List ConflictRecord
  transfers : List (TransferRecord H)
  minted : List Creation
  tree : Tree
  links : List Path
  unlisted : List Path
  sourceFiles : List (SourceFile H)
  uploads : List (PendingUpload H)
  downloads : List (ActiveDownload H)
  receivedManifest : Bool
  manifestRevision : UInt64
  trace : Trace H

/-- The data part of a node. -/
def data (n : Node H) : DataView H :=
  { config := n.config, env := n.env, uuid := n.uuid, transferId := n.transferId
    transferIdsUsed := n.transferIdsUsed, records := n.db.records, lineage := n.db.lineage
    logicalClock := n.db.logicalClock, conflicts := n.db.conflicts, transfers := n.db.transfers
    minted := n.db.minted, tree := n.folder.tree, links := n.folder.links
    unlisted := n.folder.unlisted, sourceFiles := n.sourceFiles
    uploads := n.uploads, downloads := n.downloads, receivedManifest := n.receivedManifest
    manifestRevision := n.manifestRevision, trace := n.trace }

/-- HELLO and policy frames. -/
def IsControl : Frame H → Prop
  | .hello _ => True
  | .policy _ _ => True
  | _ => False

/-- What does not end before the session does: the peer has been heard of, and an error that has
happened is still there. -/
structure Lasting (n n' : Node H) : Prop where
  receivedHello : n.receivedHello = true → n'.receivedHello = true
  lastError : n.lastError.isSome = true → n'.lastError.isSome = true

theorem Lasting.refl {n n' : Node H} (hhello : n'.receivedHello = n.receivedHello)
    (herror : n'.lastError = n.lastError) : Lasting n n' :=
  ⟨fun h => hhello.trans h, fun h => herror ▸ h⟩

instance : IsPreorder (Node H) Lasting where
  refl _ := .refl rfl rfl
  trans _ _ _ h h' := ⟨h'.receivedHello ∘ h.receivedHello, h'.lastError ∘ h.lastError⟩

/-- A step of the handshake or of the negotiation. -/
structure ControlMove (n n' : Node H) : Prop where
  data : n'.data = n.data
  uuids : n.uuidsUsed ≤ n'.uuidsUsed
  lasting : Lasting n n'
  sends : Sends IsControl n n'

theorem ControlMove.of_same {n n' : Node H} (h : n'.data = n.data)
    (hu : n.uuidsUsed ≤ n'.uuidsUsed) (hl : Lasting n n') (ho : n'.out = n.out) :
    ControlMove n n' :=
  ⟨h, hu, hl, .refl ho⟩

instance : IsPreorder (Node H) ControlMove where
  refl _ := .of_same rfl le_rfl (.refl rfl rfl) rfl
  trans _ _ _ h h' := ⟨h'.data.trans h.data, h.uuids.trans h'.uuids,
    trans_of Lasting h.lasting h'.lasting, h.sends.trans h'.sends⟩

theorem controlMove_spend (n : Node H) : ControlMove n n.spend :=
    .of_same rfl le_rfl (.refl rfl rfl) rfl

theorem controlMove_send {f : Frame H} (h : IsControl f) : Within ControlMove (send f) :=
  within_update fun _ => ⟨rfl, le_rfl, .refl rfl rfl, .one h⟩

theorem recordIgnorePolicyRevision_data {db db' : Database H} {content : Bytes} {hash : H}
    {source : PolicySource} {now : Int} {r : IgnorePolicyRevision H}
    (h : db.recordIgnorePolicyRevision content hash source now = .ok (r, db')) :
    ∃ revisions, db' = { db with policyRevisions := revisions } ∧ r.contentHash = hash ∧
      r.content = content := by
  simp only [Database.recordIgnorePolicyRevision] at h
  split at h
  · cases h
  · cases h
    exact ⟨_, rfl, rfl, rfl⟩

theorem controlMove_recordRevision (content : Bytes) (hash : H) (source : PolicySource)
    (now : Int) :
    Within ControlMove (dbGet fun db =>
      db.recordIgnorePolicyRevision content hash source now) := by
  refine within_dbGet controlMove_spend fun n r db hdb => ?_
  obtain ⟨revisions, rfl, -, -⟩ := recordIgnorePolicyRevision_data hdb
  exact .of_same rfl le_rfl (.refl rfl rfl) rfl

theorem controlMove_savePolicy (policy : PendingIgnorePolicy H) (state : PolicyState) :
    Within ControlMove (savePolicy policy state) := by
  refine within_dbDo controlMove_spend fun n db hdb => ?_
  cases hdb
  exact .of_same rfl le_rfl (.refl rfl rfl) rfl

theorem controlMove_handlePolicyReject (pending : PendingIgnorePolicy H) :
    Within ControlMove (handlePolicyReject pending) := by
  refine within_bind within_state fun n => within_ite (fun _ => ?_) fun _ => within_pure _
  refine within_dbDo controlMove_spend fun n db hdb => ?_
  cases hdb
  exact .of_same rfl le_rfl (.refl rfl rfl) rfl

variable [ContentHash H]

theorem controlMove_synchronizePolicy : Within ControlMove (synchronizePolicy (H := H)) := by
  refine within_bind (within_check _) fun rules => within_bind within_state fun n => ?_
  split
  · exact within_ite (fun _ => controlMove_recordRevision _ _ _ _) fun _ => within_pure _
  · exact controlMove_recordRevision _ _ _ _

theorem controlMove_applyPolicy (expectedHash : H) (rules : Bytes) (source : PolicySource) :
    Within ControlMove (applyPolicy expectedHash rules source) := by
  refine within_bind (within_check _) fun _ => within_ite (fun _ => within_raise _) fun _ => ?_
  refine within_bind controlMove_synchronizePolicy fun current => ?_
  refine within_ite (fun _ => within_raise _) fun _ => ?_
  refine within_ite (fun _ => within_pure _) fun _ => ?_
  refine within_bind (within_folderDo controlMove_spend ?_) fun _ => ?_
  · intro n folder hfolder
    cases hfolder
    exact .of_same rfl le_rfl (.refl rfl rfl) rfl
  · exact within_bind within_state fun n =>
      within_bind (controlMove_recordRevision _ _ _ _) fun _ => within_pure _

theorem controlMove_applyCommittedPolicy (policy : PendingIgnorePolicy H) :
    Within ControlMove (applyCommittedPolicy policy) := by
  refine within_bind (within_check _) fun hash => within_bind (R := ControlMove) ?_ fun _ => ?_
  · exact within_ite (fun _ => controlMove_applyPolicy _ _ _) fun _ =>
      within_bind controlMove_synchronizePolicy fun _ => within_pure _
  · exact within_update fun _ => .of_same rfl le_rfl (.refl rfl rfl) rfl

theorem controlMove_retryPolicy : Within ControlMove (retryPolicy (H := H)) := by
  refine within_bind within_state fun n => within_ite (fun _ => within_pure _) fun _ => ?_
  split
  · exact within_pure _
  · refine within_ite (fun _ => within_pure _) fun _ => ?_
    refine within_bind (within_when fun _ => controlMove_applyCommittedPolicy _) fun _ => ?_
    exact within_bind (controlMove_send trivial) fun _ =>
      within_update fun _ => .of_same rfl le_rfl (.refl rfl rfl) rfl

theorem controlMove_proposeIgnorePolicy (expectedHash : H) (rules : Bytes)
    (source : PolicySource) : Within ControlMove (proposeIgnorePolicy expectedHash rules
      source) := by
  refine within_bind (within_check _) fun _ => within_bind within_state fun n => ?_
  refine within_ite (fun _ => within_raise _) fun _ => ?_
  refine within_ite (fun _ => within_raise _) fun _ => ?_
  refine within_ite (fun _ => within_raise _) fun _ => ?_
  refine within_bind (within_check _) fun hash => ?_
  refine within_ite (fun _ => within_raise _) fun _ => ?_
  refine within_bind (fun n => .of_same rfl (Nat.le_succ _) (.refl rfl rfl) rfl)
    fun proposalId => ?_
  refine within_bind (within_dbDo controlMove_spend ?_) fun _ => ?_
  · intro n db hdb
    cases hdb
    exact .of_same rfl le_rfl (.refl rfl rfl) rfl
  · exact within_bind (within_update fun _ => .of_same rfl le_rfl (.refl rfl rfl) rfl) fun _ =>
      controlMove_retryPolicy

theorem controlMove_sendPolicyHello : Within ControlMove (sendPolicyHello (H := H)) :=
  within_bind within_state fun _ => within_bind (within_check _) fun _ => controlMove_send trivial

theorem controlMove_receiveHello (hello : Hello) :
    Within ControlMove (receiveHello (H := H) hello) := by
  refine within_bind within_state fun n => within_ite (fun _ => within_raise _) fun _ => ?_
  refine within_bind (within_update fun _ => .of_same rfl le_rfl ⟨fun _ => rfl, id⟩ rfl) fun _ => ?_
  refine within_ite (fun _ => within_pure _) fun _ => ?_
  exact within_bind (controlMove_send trivial) fun _ => controlMove_sendPolicyHello

theorem controlMove_handlePolicyPropose (message : IgnorePolicyMessage H) :
    Within ControlMove (handlePolicyPropose message) := by
  refine within_bind within_state fun n => ?_
  split
  · exact within_ite (fun _ => within_raise _) fun _ => controlMove_send trivial
  · refine within_bind (within_check _) fun rejected => ?_
    refine within_ite (fun _ => controlMove_send trivial) fun _ => ?_
    refine within_ite (fun _ => within_raise _) fun _ => ?_
    refine within_bind (within_dbDo controlMove_spend ?_) fun _ => controlMove_send trivial
    intro n db hdb
    cases hdb
    exact .of_same rfl le_rfl (.refl rfl rfl) rfl

theorem controlMove_handlePolicyAck (pending : PendingIgnorePolicy H)
    (message : IgnorePolicyMessage H) : Within ControlMove (handlePolicyAck pending message) := by
  refine within_bind within_state fun n => within_ite (fun _ => within_pure _) fun _ => ?_
  exact within_bind (controlMove_savePolicy _ _) fun _ =>
    within_bind (controlMove_applyCommittedPolicy _) fun _ => controlMove_send trivial

/-! ### Relations the control functions respect -/

section Control

variable {R : Node H → Node H → Prop} [IsPreorder (Node H) R]

omit [ContentHash H] [IsPreorder (Node H) R] in
/-- A relation that admits every control move is respected by every control function. -/
theorem within_of_controlMove {α : Type} (hcontrol : ∀ n n' : Node H, ControlMove n n' → R n n')
    {m : NodeM H α} (h : Within ControlMove m) : Within R m := fun n => hcontrol _ _ (h n)

variable (hcontrol : ∀ n n' : Node H, ControlMove n n' → R n n')
  (hrefresh : Within R (refreshLocal (H := H))) (hmanifest : Within R (sendManifest (H := H)))

include hcontrol hrefresh

theorem within_finishPolicy : Within R (finishPolicy (H := H)) := by
  refine within_bind (within_update fun n => hcontrol _ _ (.of_same rfl le_rfl (.refl rfl rfl) rfl))
    fun _ => ?_
  refine within_bind (within_check _) fun hash => ?_
  exact within_bind (within_update fun n => hcontrol _ _ (.of_same rfl le_rfl (.refl rfl rfl) rfl))
    fun _ => hrefresh

theorem within_handlePolicyCommit (pending : PendingIgnorePolicy H)
    (message : IgnorePolicyMessage H) : Within R (handlePolicyCommit pending message) := by
  refine within_bind within_state fun n => within_ite (fun _ => within_raise _) fun _ => ?_
  refine within_bind (within_of_controlMove hcontrol (within_when fun _ => ?_)) fun _ => ?_
  · exact within_bind (controlMove_savePolicy _ _) fun _ =>
      within_bind (controlMove_applyCommittedPolicy _) fun _ => controlMove_savePolicy _ _
  · exact within_bind (within_of_controlMove hcontrol (controlMove_send trivial)) fun _ =>
      within_finishPolicy hcontrol hrefresh

theorem within_handlePolicyDone (pending : PendingIgnorePolicy H) :
    Within R (handlePolicyDone pending) := by
  refine within_bind within_state fun n => within_ite (fun _ => within_raise _) fun _ => ?_
  refine within_bind (within_of_controlMove hcontrol (within_when fun _ => ?_)) fun _ =>
    within_finishPolicy hcontrol hrefresh
  exact within_bind (controlMove_applyCommittedPolicy _) fun _ => controlMove_savePolicy _ _

theorem within_handlePolicyAnswer (type : PolicyFrame) (message : IgnorePolicyMessage H) :
    Within R (handlePolicyAnswer type message) := by
  refine within_bind within_state fun n => ?_
  split
  · exact within_ite (fun _ => within_pure _) fun _ => within_raise _
  · split
    · exact within_of_controlMove hcontrol (controlMove_handlePolicyReject _)
    · exact within_of_controlMove hcontrol (controlMove_handlePolicyAck _ _)
    · exact within_handlePolicyCommit hcontrol hrefresh _ _
    · exact within_handlePolicyDone hcontrol hrefresh _

include hmanifest

/-- `HandlePolicy` consists of control moves, a scan and a manifest. -/
theorem within_handlePolicy (type : PolicyFrame) (message : IgnorePolicyMessage H) :
    Within R (handlePolicy type message) := by
  refine within_ite (fun _ => ?_) fun _ => within_ite (fun _ => within_raise _) fun _ => ?_
  · refine within_bind within_state fun n => within_bind (within_check _) fun hash => ?_
    refine within_ite (fun _ => within_raise _) fun _ => ?_
    refine within_bind (within_update fun n => hcontrol _ _ (.of_same rfl le_rfl
      (.refl rfl rfl) rfl)) fun _ => ?_
    exact within_bind (within_of_controlMove hcontrol controlMove_retryPolicy) fun _ => hmanifest
  · refine within_bind (within_check _) fun _ => within_ite (fun _ => ?_) fun _ => ?_
    · exact within_of_controlMove hcontrol (controlMove_handlePolicyPropose _)
    · exact within_handlePolicyAnswer hcontrol hrefresh _ _

/-- A relation is respected by `Receive` when it admits the control moves and is respected by the
scan, by `SendManifest` and by the data frames. -/
theorem within_receive (channel : Channel) (frame : Frame H)
    (hdata : Within R (receiveData frame))
    (hmissed : ∀ n : Node H, R n { n with trace := { n.trace with
      missedManifest := n.trace.missedManifest || isManifest frame } }) :
    Within R (receive channel frame) := by
  refine within_orElse ?_ fun e =>
    within_update fun n => hcontrol _ _ (.of_same rfl le_rfl ⟨id, fun _ => rfl⟩ rfl)
  have hgated : Within R (receiveGated frame) :=
    within_bind within_state fun n => within_ite (fun _ => within_raise _) fun _ =>
      within_ite (fun _ => within_update hmissed) fun _ => hdata
  refine within_ite (fun _ => within_raise _) fun _ => ?_
  cases frame with
  | malformed e => exact within_raise _
  | hello hello => exact within_of_controlMove hcontrol (controlMove_receiveHello _)
  | policy type message =>
    exact within_bind within_state fun n => within_ite (fun _ => within_raise _) fun _ =>
      within_handlePolicy hcontrol hrefresh hmanifest _ _
  | versionManifest m => exact hgated
  | fileRequest r => exact hgated
  | chunk c => exact hgated
  | cancel c => exact hgated
  | unexpected c => exact hgated
  | undecodable e => exact hgated

omit hmanifest in
theorem within_start : Within R (start (H := H)) := by
  refine within_bind within_state fun n => within_ite (fun _ => within_pure _) fun _ => ?_
  refine within_bind (within_update fun n => hcontrol _ _ (.of_same rfl le_rfl (.refl rfl rfl) rfl))
    fun _ => ?_
  refine within_bind (within_of_controlMove hcontrol controlMove_synchronizePolicy) fun _ => ?_
  refine within_bind (within_update fun n => hcontrol _ _ (.of_same rfl le_rfl (.refl rfl rfl) rfl))
    fun _ => ?_
  exact within_bind hrefresh fun _ => within_of_controlMove hcontrol (controlMove_send trivial)

end Control

/-! ## Remote changes -/

omit [ContentHash H]

/-- Two downloads that are after the same thing; they may differ in what has arrived. -/
structure SameGoal (d d' : ActiveDownload H) : Prop where
  entry : d'.entry = d.entry
  destinationPath : d'.destinationPath = d.destinationPath
  applyFormalRecord : d'.applyFormalRecord = d.applyFormalRecord
  hash : d'.hash = d.hash
  transferId : d'.transferId = d.transferId
  against : d'.against = d.against
  receiver : { d'.receiver with
    accepted := d.receiver.accepted, receivedBytes := d.receiver.receivedBytes } = d.receiver

theorem SameGoal.refl (d : ActiveDownload H) : SameGoal d d :=
  ⟨rfl, rfl, rfl, rfl, rfl, rfl, rfl⟩

/-- A download is for the file that its entry lists, and its receiver is set up for that file. -/
structure IsFor (d : ActiveDownload H) : Prop where
  kind : d.entry.kind = .file
  contentHash : d.entry.contentHash = some d.hash
  transferId : d.receiver.transferId = d.transferId
  path : d.receiver.relativePath = d.destinationPath
  size : d.receiver.expectedSize = d.entry.size
  hash : d.receiver.expectedHash = d.hash
  formal : d.applyFormalRecord = true → d.destinationPath = d.entry.relativePath

theorem IsFor.of_sameGoal {d d' : ActiveDownload H} (h : IsFor d) (hgoal : SameGoal d d') :
    IsFor d' := by
  have hreceiver := hgoal.receiver
  refine ⟨hgoal.entry ▸ h.kind, ?_, ?_, ?_, ?_, ?_, ?_⟩
  · rw [hgoal.entry, hgoal.hash, h.contentHash]
  · rw [hgoal.transferId, ← h.transferId, ← hreceiver]
  · rw [hgoal.destinationPath, ← h.path, ← hreceiver]
  · rw [hgoal.entry, ← h.size, ← hreceiver]
  · rw [hgoal.hash, ← h.hash, ← hreceiver]
  · rw [hgoal.applyFormalRecord, hgoal.destinationPath, hgoal.entry]
    exact h.formal

/-- Requests, chunks and cancels. -/
def IsTransfer : Frame H → Prop
  | .fileRequest _ => True
  | .chunk _ => True
  | .cancel _ => True
  | _ => False

/-- The relation admits the steps that transfers and conflict copies are made of. -/
structure TransferMoves (R : Node H → Node H → Prop) : Prop where
  spend : ∀ n, R n n.spend
  uuid : ∀ n, R n { n with uuidsUsed := n.uuidsUsed + 1 }
  transferId : ∀ n, R n { n with transferIdsUsed := n.transferIdsUsed + 1 }
  conflict : ∀ n c, R n { n with db := { n.db with conflicts := n.db.conflicts ++ [c] } }
  transfers : ∀ n l, R n { n with db := { n.db with transfers := l } }
  tree : ∀ n f, f.rules = n.folder.rules → R n { n with folder := f }
  sources : ∀ n l, R n { n with sourceFiles := l }
  uploads : ∀ n l, R n { n with uploads := l }
  downloads : ∀ n l, (∀ d ∈ l, ∃ d' ∈ n.downloads, SameGoal d' d) → R n { n with downloads := l }
  preserved : ∀ n c, R n { n with trace := { n.trace with preserved := n.trace.preserved ++ [c] } }
  send : ∀ n f, IsTransfer f → R n { n with out := n.out ++ [f] }

/-- The relation also admits what applying one entry adds: its record, and its download. -/
structure EntryMoves (R : Node H → Node H → Prop) (entry : VersionedManifestEntry H) : Prop
    extends TransferMoves R where
  upsert : ∀ n record, toRecord n.config.taskId entry = .ok record →
    Database.validateFileRecord record = .ok () →
    R n { n with db :=
      { n.db with records := n.db.records.insert record.relativePath record } }
  begin : ∀ n d, d.entry = entry → IsFor d → R n { n with downloads := n.downloads ++ [d] }

theorem decodeHash_eq_ok {entry : VersionedManifestEntry H} {hash : H}
    (h : decodeHash entry = .ok hash) : entry.contentHash = some hash := by
  rw [decodeHash] at h
  cases hhash : entry.contentHash with
  | none =>
    rw [hhash] at h
    cases h
  | some hash' =>
    rw [hhash] at h
    cases h
    rfl

section Remote

variable {R : Node H → Node H → Prop} [IsPreorder (Node H) R]

namespace TransferMoves

variable (M : TransferMoves R)

include M

theorem send' {f : Frame H} (h : IsTransfer f) : Within R (Node.send f) :=
  within_update fun n => M.send n f h

theorem folderOp {f : Folder → Except Error Folder}
    (h : ∀ folder folder', f folder = .ok folder' → folder'.rules = folder.rules) :
    Within R (folderDo f) :=
  within_folderDo M.spend fun n folder hf => M.tree n folder (h n.folder folder hf)

theorem transferOp {f : Database H → Except Error (Database H)}
    (h : ∀ db db', f db = .ok db' → ∃ l, db' = { db with transfers := l }) :
    Within R (dbDo f) := by
  refine within_dbDo M.spend fun n db hf => ?_
  obtain ⟨l, rfl⟩ := h n.db db hf
  exact M.transfers n l

theorem persistAcceptedChunks (receiver : DownloadReceiver H) (indices : List Nat) :
    Within R (Node.persistAcceptedChunks receiver indices) :=
  within_bind (within_check _) fun _ => within_bind within_state fun _ =>
    M.transferOp fun _ _ h => Database.markTransferChunksCompleted_eq_ok h

theorem relocateSourceFile (oldPath newPath : Path) :
    Within R (Node.relocateSourceFile oldPath newPath) :=
  within_update fun n => M.sources n _

theorem clearPath (p : Path) : Within R (Node.clearPath p) :=
  within_bind within_state fun _ =>
    within_ite (fun _ => M.folderOp fun _ _ h => (Folder.removeFile_eq_ok h).rules) fun _ =>
      within_when fun _ => M.folderOp fun _ _ h => (Folder.removeEmptyDirectory_eq_ok h).rules

theorem handleCancel (cancel : Cancel) : Within R (Node.handleCancel cancel) := by
  refine within_bind (within_update fun n => M.uploads n _) fun _ =>
    within_bind within_state fun n => ?_
  split
  · exact within_pure _
  · refine within_bind (M.transferOp fun _ _ h => Database.updateTransferState_eq_ok h) fun _ => ?_
    refine within_update fun n => M.downloads n _ fun d hd => ?_
    exact ⟨d, List.mem_of_mem_eraseP hd, .refl d⟩

variable [ContentHash H]

theorem commitReceiver (receiver : DownloadReceiver H) :
    Within R (Node.commitReceiver receiver) := by
  refine within_bind (within_check _) fun _ => within_bind (M.folderOp ?_) fun _ => ?_
  · intro folder folder' h
    obtain ⟨_, -, -, -, -, hrules, -⟩ := Folder.commitPartial_eq_ok h
    exact hrules
  · exact within_bind within_state fun _ =>
      M.transferOp fun _ _ h => Database.updateTransferState_eq_ok h

theorem openTransfer (destinationPath : Path) (hash : H) :
    Within R (Node.openTransfer destinationPath hash) := by
  refine within_bind within_state fun n => within_bind (within_check _) fun active => ?_
  split
  · exact within_pure _
  · refine within_bind (fun n => M.transferId n) fun transferId => ?_
    refine within_bind (M.folderOp fun _ _ h => (Folder.discardPartial_eq_ok h).rules) fun _ => ?_
    exact within_bind (M.transferOp fun _ _ h => ⟨_, (Database.createTransfer_eq_ok h).2⟩)
      fun _ => within_pure _

theorem preserveConflict (entry : VersionedManifestEntry H) (remote loc : FileRecord H)
    (resolution : VersionResolution) :
    Within R (Node.preserveConflict entry remote loc resolution) := by
  refine within_bind (fun n => M.uuid n) fun conflictId => within_bind within_state fun n => ?_
  refine within_bind (within_dbDo M.spend ?_) fun _ => within_when fun _ => ?_
  · intro n db h
    rw [Database.recordConflict_eq_ok h]
    exact M.conflict n _
  · refine within_bind (M.folderOp ?_) fun _ => ?_
    · intro folder folder' h
      obtain ⟨_, -, -, -, hrules, -⟩ := Folder.moveFileToConflict_eq_ok h
      exact hrules
    · exact within_bind (within_update fun n => M.preserved n _) fun _ => M.relocateSourceFile _ _

theorem handleFileRequest (request : FileRequest H) :
    Within R (Node.handleFileRequest request) := by
  refine within_bind within_state fun n => ?_
  split
  · exact M.send' trivial
  · refine within_ite (fun _ => M.send' trivial) fun _ => ?_
    dsimp only
    split
    · exact M.send' trivial
    · exact within_update fun n => M.uploads n _

theorem pumpUploads (done rest : List (PendingUpload H)) :
    Within R (Node.pumpUploads done rest) := by
  induction rest generalizing done with
  | nil => exact within_update fun n => M.uploads n _
  | cons upload rest ih =>
    refine within_bind within_state fun n => ?_
    split
    · exact within_bind (within_update fun n => M.uploads n _) fun _ => within_raise _
    · refine within_bind ?_ fun _ => within_ite (fun _ => ih _) fun _ => ih _
      rename_i next session _
      cases next with
      | none => exact within_pure _
      | some chunk => exact M.send' trivial

theorem pumpDownload (index : Nat) : Within R (Node.pumpDownload (H := H) index) := by
  refine within_bind within_state fun n => ?_
  split
  · exact within_pure _
  · refine within_when fun _ => within_bind (M.persistAcceptedChunks _ _) fun _ => ?_
    refine within_update fun n => M.downloads n _ fun d hd => ?_
    obtain ⟨i, hi, rfl⟩ := List.mem_iff_getElem.mp hd
    rw [List.length_modify] at hi
    rw [List.getElem_modify]
    refine ⟨n.downloads[i], List.getElem_mem hi, ?_⟩
    split
    · exact ⟨rfl, rfl, rfl, rfl, rfl, rfl, rfl⟩
    · exact .refl _

/-- `Pump` consists of control moves and transfer moves. -/
theorem pump (hcontrol : ∀ n n' : Node H, ControlMove n n' → R n n') :
    Within R (Node.pump (H := H)) := by
  refine within_bind within_state fun n => ?_
  refine within_bind (within_when fun _ => within_of_controlMove hcontrol controlMove_retryPolicy)
    fun _ => within_bind within_state fun n => within_ite (fun _ => within_pure _) fun _ => ?_
  exact within_bind (M.pumpUploads _ _) fun _ => within_forM fun i _ => M.pumpDownload i

end TransferMoves

theorem mem_updateFirst {γ : Type} {p : γ → Bool} {f : γ → γ} {l : List γ} {x : γ}
    (h : x ∈ updateFirst p f l) : ∃ y ∈ l, x = y ∨ x = f y := by
  induction l with
  | nil => cases h
  | cons y l ih =>
    rw [updateFirst] at h
    split at h
    · rcases List.mem_cons.mp h with rfl | h
      · exact ⟨y, List.mem_cons_self, .inr rfl⟩
      · exact ⟨x, List.mem_cons_of_mem _ h, .inl rfl⟩
    · rcases List.mem_cons.mp h with rfl | h
      · exact ⟨x, List.mem_cons_self, .inl rfl⟩
      · obtain ⟨z, hz, hxz⟩ := ih h
        exact ⟨z, List.mem_cons_of_mem _ hz, hxz⟩

namespace EntryMoves

variable {entry : VersionedManifestEntry H} (M : EntryMoves R entry)

include M

theorem upsertRemoteRecord : Within R (Node.upsertRemoteRecord entry) := by
  refine within_of_wp fun n => ?_
  rw [Node.upsertRemoteRecord, wp_bind, wp_state, wp_bind]
  refine wp_check (fun _ _ => refl_of R n) fun record hrecord => ?_
  refine wp_dbDo (refl_of R n) (fun _ _ => M.spend n) fun db hdb => ?_
  obtain ⟨hval, rfl⟩ := Database.upsertFileRecord_eq_ok hdb
  exact trans_of R (M.spend n) (M.upsert n.spend record hrecord hval)

variable [ContentHash H]

theorem beginTransfer {destinationPath : Path} {applyFormalRecord : Bool} {hash : H}
    (hkind : entry.kind = .file) (hhash : entry.contentHash = some hash)
    (hformal : applyFormalRecord = true → destinationPath = entry.relativePath)
    (against : Option VersionId) :
    Within R (Node.beginTransfer entry destinationPath applyFormalRecord hash against) := by
  refine within_bind (M.openTransfer _ _) fun transferId =>
    within_check_bind fun n receiver hreceiver => ?_
  obtain ⟨-, rfl⟩ := DownloadReceiver.create_eq_ok hreceiver
  refine within_bind (within_check _) fun request => within_ite (fun _ => ?_) fun _ => ?_
  · exact within_bind (M.commitReceiver _) fun _ => within_when fun _ => M.upsertRemoteRecord
  · exact within_bind (within_update fun n =>
      M.begin n _ rfl ⟨hkind, hhash, rfl, rfl, rfl, rfl, hformal⟩) fun _ => M.send' trivial

theorem beginDownload {destinationPath : Path} {applyFormalRecord : Bool}
    (hkind : entry.kind = .file)
    (hformal : applyFormalRecord = true → destinationPath = entry.relativePath)
    (against : Option VersionId) :
    Within R (Node.beginDownload entry destinationPath applyFormalRecord against) := by
  refine within_check_bind fun _ hash hhash => within_bind within_state fun n =>
    within_ite (fun _ => within_pure _) fun _ => within_bind (within_check _) fun _ => ?_
  refine within_bind (within_when fun _ => M.folderOp fun _ _ h =>
    (Folder.removeEmptyDirectory_eq_ok h).rules) fun _ => within_ite (fun _ => ?_) fun _ => ?_
  · exact within_bind (M.folderOp fun _ _ h => (Folder.writeAtomically_eq_ok h).rules) fun _ =>
      within_when fun _ => M.upsertRemoteRecord
  · exact M.beginTransfer hkind (decodeHash_eq_ok hhash) hformal _

theorem applyFormal (against : Option VersionId) : Within R (Node.applyFormal entry against) := by
  rw [Node.applyFormal]
  split
  · next hkind => exact M.beginDownload hkind (fun _ => rfl) _
  · refine within_bind within_state fun n => within_bind (within_check _) fun _ => ?_
    refine within_bind (within_when fun _ => M.folderOp fun _ _ h =>
      (Folder.removeFile_eq_ok h).rules) fun _ => ?_
    exact within_bind (M.folderOp fun _ _ h => (Folder.ensureDirectory_eq_ok h).rules) fun _ =>
      M.upsertRemoteRecord
  · exact within_bind (within_check _) fun _ => within_bind (M.clearPath _) fun _ =>
      M.upsertRemoteRecord

theorem actOn (remote : FileRecord H) (loc : Option (FileRecord H))
    (resolution : VersionResolution) : Within R (Node.actOn entry remote loc resolution) := by
  unfold Node.actOn
  split
  · exact within_pure _
  · refine within_bind (M.preserveConflict _ _ _ _) fun _ => ?_
    exact within_ite (fun _ => M.applyFormal _) fun _ =>
      within_when fun hkind => M.beginDownload hkind (fun h => absurd h Bool.false_ne_true) _
  · exact M.applyFormal _

theorem settleDownload (chunk : Chunk H) {download : ActiveDownload H}
    (hentry : download.entry = entry) : Within R (Node.settleDownload chunk download) := by
  subst hentry
  refine within_when fun _ => within_bind ?_ fun _ => ?_
  · exact within_bind (M.commitReceiver _) fun _ => within_when fun _ => M.upsertRemoteRecord
  · refine within_update fun n => M.downloads n _ fun d hd => ?_
    exact ⟨d, List.mem_of_mem_eraseP hd, .refl d⟩

theorem acceptInto (chunk : Chunk H) {download : ActiveDownload H}
    (hentry : download.entry = entry) : Within R (Node.acceptInto chunk download) := by
  have hupdate : ∀ f : ActiveDownload H → ActiveDownload H, (∀ d, SameGoal d (f d)) →
      ∀ n : Node H, R n { n with downloads := updateFirst (ownsChunk chunk) f n.downloads } := by
    intro f hf n
    refine M.downloads n _ fun d hd => ?_
    obtain ⟨d', hd', rfl | rfl⟩ := mem_updateFirst hd
    · exact ⟨d, hd', .refl d⟩
    · exact ⟨d', hd', hf d'⟩
  refine within_bind (within_check _) fun _ => within_ite (fun _ => within_pure _) fun _ => ?_
  refine within_bind (M.folderOp ?_) fun _ => ?_
  · intro folder folder' h
    obtain ⟨_, -, -, hput⟩ := Folder.writePartialChunk_eq_ok h
    exact hput.rules
  · refine within_bind (within_update (hupdate _ fun d => ⟨rfl, rfl, rfl, rfl, rfl, rfl, rfl⟩))
      fun _ => within_ite (fun _ => ?_) fun _ => M.settleDownload chunk hentry
    refine within_bind (M.persistAcceptedChunks _ _) fun _ => ?_
    exact within_bind (within_update (hupdate _ fun d => ⟨rfl, rfl, rfl, rfl, rfl, rfl, rfl⟩))
      fun _ => M.settleDownload chunk hentry

end EntryMoves

/-- The relation also admits what a whole manifest adds: rows, clock and bookkeeping. -/
structure ManifestMoves (R : Node H → Node H → Prop) : Prop extends TransferMoves R where
  entry : ∀ entry, EntryMoves R entry
  row : ∀ n row db, n.db.recordVersionLineage row = .ok db → R n { n with db := db }
  clock : ∀ n observed clock db, n.db.advanceLogicalClock observed = .ok (clock, db) →
    R n { n with db := db }
  observed : ∀ n e, R n { n with trace := { n.trace with observed := n.trace.observed ++ [e] } }
  received : ∀ n, R n { n with receivedManifest := true }
  applied : ∀ n m, R n { n with trace := { n.trace with
    appliedManifest := some m, missedManifest := false } }

namespace ManifestMoves

variable (M : ManifestMoves R)

include M

theorem observeEntry (entry : VersionedManifestEntry H) (remote : FileRecord H) :
    Within R (Node.observeEntry entry remote) := by
  refine within_bind (within_dbDo M.spend fun n db h => M.row n _ db h) fun _ => ?_
  refine within_bind (within_dbGet M.spend fun n c db h => M.clock n _ c db h)
    fun _ => within_update fun n => M.observed n entry

variable [ContentHash H]

theorem applyRemoteEntry (entry : VersionedManifestEntry H) :
    Within R (Node.applyRemoteEntry entry) :=
  within_bind within_state fun _ => within_bind (within_check _) fun remote =>
    within_bind (M.observeEntry entry remote) fun _ => within_bind (within_check _) fun loc =>
      within_bind (within_check _) fun resolution => (M.entry entry).actOn remote loc resolution

theorem applyManifest (manifest : VersionedManifest H) :
    Within R (Node.applyManifest manifest) := by
  refine within_bind (within_check _) fun _ => within_bind (within_update M.received) fun _ => ?_
  refine within_bind (within_check _) fun rules => within_bind (within_forM fun e _ => ?_)
    fun _ => within_update fun n => M.applied n manifest
  exact within_bind (within_check _) fun _ => within_when fun _ => M.applyRemoteEntry e

theorem acceptChunk (chunk : Chunk H) : Within R (Node.acceptChunk chunk) := by
  refine within_bind within_state fun n => ?_
  split
  · exact within_raise _
  · exact (M.entry _).acceptInto chunk rfl

theorem receiveData (frame : Frame H) : Within R (Node.receiveData frame) := by
  cases frame with
  | versionManifest m => exact within_bind (within_check _) fun _ => M.applyManifest m
  | chunk c => exact within_ite (fun _ => within_raise _) fun _ => M.acceptChunk c
  | fileRequest r => exact M.handleFileRequest r
  | cancel c => exact M.handleCancel c
  | hello h => exact within_raise _
  | policy t m => exact within_raise _
  | unexpected c => exact within_raise _
  | malformed e => exact within_raise _
  | undecodable e => exact within_raise _

end ManifestMoves

end Remote

/-! ## Scans -/

/-- The parts of a node that a scan does not touch. -/
structure ScanView (H : Type) where
  config : Config
  env : Environment
  uuid : Nat → Bytes
  transferId : Nat → TransferId
  transferIdsUsed : Nat
  folder : Folder
  pendingPolicy : Option (PendingIgnorePolicy H)
  policyRevisions : List (IgnorePolicyRevision H)
  conflicts : List ConflictRecord
  transfers : List (TransferRecord H)
  started : Bool
  receivedHello : Bool
  receivedManifest : Bool
  policyHash : Option H
  nextPolicyRetry : Nat
  uploads : List (PendingUpload H)
  downloads : List (ActiveDownload H)
  lastError : Option Error
  observed : List (VersionedManifestEntry H)
  preserved : List (Path × VersionId)
  appliedManifest : Option (VersionedManifest H)
  missedManifest : Bool

/-- What a scan leaves alone. -/
def scanView (n : Node H) : ScanView H :=
  { config := n.config, env := n.env, uuid := n.uuid, transferId := n.transferId
    transferIdsUsed := n.transferIdsUsed, folder := n.folder
    pendingPolicy := n.db.pendingPolicy, policyRevisions := n.db.policyRevisions
    conflicts := n.db.conflicts, transfers := n.db.transfers, started := n.started
    receivedHello := n.receivedHello, receivedManifest := n.receivedManifest
    policyHash := n.policyHash, nextPolicyRetry := n.nextPolicyRetry, uploads := n.uploads
    downloads := n.downloads, lastError := n.lastError, observed := n.trace.observed
    preserved := n.trace.preserved, appliedManifest := n.trace.appliedManifest
    missedManifest := n.trace.missedManifest }

/-- A step of a scan or of sending a manifest. -/
structure LocalMove (n n' : Node H) : Prop where
  view : n'.scanView = n.scanView
  uuids : n.uuidsUsed ≤ n'.uuidsUsed
  ready : n'.policyReady = true → n.policyReady = true
  lineage : ∀ v parent, n.db.lineage.find v = some parent → n'.db.lineage.find v = some parent
  clock : n.db.logicalClock ≤ n'.db.logicalClock
  minted : n.db.minted <+: n'.db.minted
  /-- The manifests sent; the last of them is the one the node remembers. -/
  sends : ∃ ms : List (VersionedManifest H), n'.out = n.out ++ ms.map Frame.versionManifest ∧
    n'.trace.sentManifest = ms.getLast?.or n.trace.sentManifest ∧
      (ms ≠ [] → n.policyReady = true ∧ n.policyPending = false)

theorem LocalMove.of_same {n n' : Node H} (hview : n'.scanView = n.scanView)
    (huuids : n.uuidsUsed ≤ n'.uuidsUsed)
    (hready : n'.policyReady = true → n.policyReady = true)
    (hlineage : ∀ v parent, n.db.lineage.find v = some parent →
      n'.db.lineage.find v = some parent) (hclock : n.db.logicalClock ≤ n'.db.logicalClock)
    (hminted : n.db.minted <+: n'.db.minted) (hout : n'.out = n.out)
    (hsent : n'.trace.sentManifest = n.trace.sentManifest) : LocalMove n n' :=
  ⟨hview, huuids, hready, hlineage, hclock, hminted, [], by simp [hout], by simp [hsent], nofun⟩

instance : IsPreorder (Node H) LocalMove where
  refl n := .of_same rfl le_rfl id (fun _ _ h => h) le_rfl (List.prefix_refl _) rfl rfl
  trans n n' n'' h h' := by
    obtain ⟨ms, hout, hsent, hopen⟩ := h.sends
    obtain ⟨ms', hout', hsent', hopen'⟩ := h'.sends
    have hpending : n'.policyPending = n.policyPending := by
      rw [policyPending, policyPending, Database.findPendingIgnorePolicy,
        show n'.db.pendingPolicy = n.db.pendingPolicy from congrArg ScanView.pendingPolicy h.view]
      rfl
    refine ⟨h'.view.trans h.view, h.uuids.trans h'.uuids, h.ready ∘ h'.ready,
      fun v parent hv => h'.lineage v parent (h.lineage v parent hv), h.clock.trans h'.clock,
      h.minted.trans h'.minted, ms ++ ms', ?_, ?_, fun hne => ?_⟩
    · rw [hout', hout, List.map_append, List.append_assoc]
    · rw [hsent', hsent, List.getLast?_append, Option.or_assoc]
    · by_cases hms : ms = []
      · rw [hms, List.nil_append] at hne
        exact ⟨h.ready (hopen' hne).1, hpending ▸ (hopen' hne).2⟩
      · exact hopen hms

theorem localMove_spend (n : Node H) : LocalMove n n.spend :=
  .of_same rfl le_rfl id (fun _ _ h => h) le_rfl (List.prefix_refl _) rfl rfl

theorem localMove_upsert (record : FileRecord H) :
    Within LocalMove (dbDo fun db => db.upsertFileRecord record) := by
  refine within_dbDo localMove_spend fun n db hdb => ?_
  obtain ⟨-, rfl⟩ := Database.upsertFileRecord_eq_ok hdb
  exact .of_same rfl le_rfl id (fun _ _ h => h) le_rfl (List.prefix_refl _) rfl rfl

/-- A version that is created does not have a row yet, or keeps the one it has. -/
theorem recordCreation_lineage {db db' : Database H} {c : Creation}
    (h : db.recordCreation c = .ok db') :
    (∀ v parent, db.lineage.find v = some parent → db'.lineage.find v = some parent) ∧
      db' = { db with lineage := db'.lineage, minted := db.minted ++ [c] } := by
  obtain ⟨d, hrow, h⟩ := ok_of_bind h
  obtain ⟨-, -, hold, lineage, rfl, hfind⟩ := Database.recordVersionLineage_eq_ok hrow
  cases h
  refine ⟨fun v parent hv => ?_, rfl⟩
  show lineage.find v = some parent
  rw [hfind]
  split
  · rename_i hvc
    rw [hold parent (hvc ▸ hv)]
  · exact hv

theorem advanceLogicalClock_le {db db' : Database H} {observed clock : Nat}
    (h : db.advanceLogicalClock observed = .ok (clock, db')) :
    db.logicalClock < clock ∧ observed < clock ∧ db' = { db with logicalClock := clock } := by
  obtain ⟨rfl, rfl⟩ := Database.advanceLogicalClock_eq_ok h
  exact ⟨Nat.lt_succ_of_le (Nat.le_max_left _ _), Nat.lt_succ_of_le (Nat.le_max_right _ _), rfl⟩

theorem localMove_createVersion (parent : Option VersionId) (path : Path) :
    Within LocalMove (createVersion (H := H) parent path) := by
  refine within_bind (within_dbGet localMove_spend fun n clock db hdb => ?_) fun clock => ?_
  · obtain ⟨hlt, -, rfl⟩ := advanceLogicalClock_le hdb
    exact .of_same rfl le_rfl id (fun _ _ h => h) hlt.le (List.prefix_refl _) rfl rfl
  refine within_bind (fun n => ?_) fun version => within_bind within_state fun n => ?_
  · exact .of_same rfl (Nat.le_succ _) id (fun _ _ h => h) le_rfl (List.prefix_refl _) rfl rfl
  refine within_bind (within_dbDo localMove_spend fun n db hdb => ?_) fun _ => within_pure _
  obtain ⟨hlineage, heq⟩ := recordCreation_lineage hdb
  rw [heq]
  exact .of_same rfl le_rfl id hlineage le_rfl (List.prefix_append _ _) rfl rfl

theorem localMove_recordChange (previous : Option (FileRecord H)) (entry : SnapshotEntry H) :
    Within LocalMove (recordChange previous entry) :=
  within_bind (localMove_createVersion _ _) fun _ => within_bind within_state fun _ =>
    localMove_upsert _

theorem localMove_recordDeletion (record : FileRecord H) :
    Within LocalMove (recordDeletion record) :=
  within_bind (localMove_createVersion _ _) fun _ => within_bind within_state fun _ =>
    localMove_upsert _

variable [ContentHash H]

theorem localMove_refreshEntries (known : List (FileRecord H)) (snapshot : List (SnapshotEntry H)) :
    Within LocalMove (refreshEntries known snapshot) := by
  induction snapshot generalizing known with
  | nil => exact within_pure _
  | cons entry snapshot ih =>
    exact within_bind (within_when fun _ => localMove_recordChange _ _) fun _ => ih _

theorem localMove_refreshDeletions (snapshot : List (SnapshotEntry H))
    (known : List (FileRecord H)) : Within LocalMove (refreshDeletions snapshot known) := by
  induction known generalizing snapshot with
  | nil => exact within_pure _
  | cons record known ih =>
    exact within_bind (within_when fun _ => localMove_recordDeletion _) fun _ => ih _

theorem localMove_sendManifest : Within LocalMove (sendManifest (H := H)) := by
  refine within_of_wp fun n => ?_
  rw [sendManifest, wp_bind, wp_state]
  have hrevision : LocalMove n { n with manifestRevision := n.manifestRevision + 1 } :=
    .of_same rfl le_rfl id (fun _ _ h => h) le_rfl (List.prefix_refl _) rfl rfl
  refine wp_ite (fun _ => refl_of LocalMove n) fun hgate => ?_
  have hopen : n.policyReady = true ∧ n.policyPending = false := by simpa using hgate
  rw [wp_bind, wp_update, wp_bind]
  refine wp_check (fun _ _ => hrevision) fun rules _ => ?_
  rw [wp_bind]
  refine wp_check (fun _ _ => hrevision) fun entries hentries => ?_
  rw [wp_bind]
  refine wp_check (fun _ _ => hrevision) fun _ _ => ?_
  rw [wp_bind, wp_send, wp_update]
  exact ⟨rfl, le_rfl, id, fun _ _ h => h, le_rfl, List.prefix_refl _, [_], rfl, rfl, fun _ => hopen⟩

theorem localMove_refreshLocal : Within LocalMove (refreshLocal (H := H)) := by
  refine within_bind within_state fun n => within_ite (fun _ => within_pure _) fun _ => ?_
  refine within_bind (within_check _) fun hash => within_ite (fun _ => ?_) fun _ => ?_
  · refine within_bind (within_update fun n => ?_) fun _ => within_raise _
    exact .of_same rfl le_rfl nofun (fun _ _ h => h) le_rfl (List.prefix_refl _) rfl rfl
  refine within_bind (within_check _) fun snapshot => ?_
  refine within_bind (localMove_refreshEntries _ _) fun _ => ?_
  refine within_bind (localMove_refreshDeletions _ _) fun _ => ?_
  refine within_bind (within_update fun n => ?_) fun _ => within_when fun _ =>
    localMove_sendManifest
  exact .of_same rfl le_rfl id (fun _ _ h => h) le_rfl (List.prefix_refl _) rfl rfl

/-! ### The runtime's scan -/

section Reconcile

variable {n : Node H} {db db' : Database H}

theorem localMove_recordNewVersion {parent : Option VersionId} {record : FileRecord H}
    (h : recordNewVersion db parent record = .ok db') :
    LocalMove { n with db := db } { n with db := db' } := by
  obtain ⟨⟨clock, db1⟩, hclock, hrest⟩ := ok_of_bind h
  obtain ⟨db2, hcreate, hupsert⟩ := ok_of_bind hrest
  obtain ⟨hlt, -, rfl⟩ := advanceLogicalClock_le hclock
  obtain ⟨hlineage, heq⟩ := recordCreation_lineage hcreate
  obtain ⟨-, rfl⟩ := Database.upsertFileRecord_eq_ok hupsert
  rw [heq]
  exact .of_same rfl le_rfl id hlineage hlt.le (List.prefix_append _ _) rfl rfl

theorem localMove_reconcileUpserts {previous : Path → Option (FileRecord H)}
    {records : List (FileRecord H)} (h : reconcileUpserts true previous db records = .ok db') :
    LocalMove { n with db := db } { n with db := db' } := by
  induction records generalizing db with
  | nil =>
    cases h
    exact refl_of LocalMove _
  | cons record records ih =>
    obtain ⟨db1, hstep, h⟩ := ok_of_bind h
    refine trans_of LocalMove ?_ (ih h)
    rw [reconcileUpsert] at hstep
    split at hstep
    · exact localMove_recordNewVersion hstep
    · obtain ⟨-, rfl⟩ := Database.upsertFileRecord_eq_ok hstep
      exact .of_same rfl le_rfl id (fun _ _ h => h) le_rfl (List.prefix_refl _) rfl rfl

theorem localMove_reconcileDeletes {config : ReconcileConfig}
    {previous : Path → Option (FileRecord H)} {newId : Nat → VersionId} {paths : List Path}
    {used used' : Nat}
    (h : reconcileDeletes true config previous newId used db paths = .ok (db', used')) :
    LocalMove { n with db := db } { n with db := db' } := by
  induction paths generalizing db used with
  | nil =>
    cases h
    exact refl_of LocalMove _
  | cons path paths ih =>
    obtain ⟨db1, hstep, h⟩ := ok_of_bind h
    exact trans_of LocalMove (localMove_recordNewVersion hstep) (ih h)

theorem localMove_reconcile {snapshot : List (SnapshotEntry H)} {config : ReconcileConfig}
    {newId : Nat → VersionId} {result : ReconcileResult} {used : Nat}
    (h : reconcile true n.db snapshot config newId n.uuidsUsed = .ok ((result, used), db')) :
    LocalMove n { n with db := db', uuidsUsed := used } := by
  have hused := le_of_reconcile h
  rw [reconcile] at h
  split at h
  · cases h
  split at h
  · cases h
  obtain ⟨diff, -, h⟩ := ok_of_bind h
  obtain ⟨db1, hupserts, h⟩ := ok_of_bind h
  obtain ⟨⟨db2, used2⟩, hdeletes, h⟩ := ok_of_bind h
  cases h
  refine trans_of LocalMove (trans_of LocalMove (localMove_reconcileUpserts hupserts)
    (localMove_reconcileDeletes hdeletes)) ?_
  exact .of_same rfl hused id (fun _ _ h => h) le_rfl (List.prefix_refl _) rfl rfl

theorem localMove_performScan : Within LocalMove (performScan (H := H)) := by
  refine within_of_wp fun n => ?_
  rw [performScan, wp_bind]
  refine wp_check (fun _ _ => refl_of LocalMove n) fun hash _ => ?_
  rw [wp_bind]
  refine wp_check (fun _ _ => refl_of LocalMove n) fun snapshot _ => ?_
  rw [wp_bind, wp_state]
  refine wp_ite (fun _ => refl_of LocalMove n) fun _ =>
    wp_ite (fun _ => refl_of LocalMove n) fun _ => ?_
  rw [wp_bind]
  refine wp_dbGet (refl_of LocalMove n) (fun _ _ => localMove_spend n) fun r db h => ?_
  exact trans_of LocalMove (localMove_spend n) (localMove_reconcile (n := n.spend) h)

end Reconcile

/-! ## Whole steps

Every step of a node is a call, a frame or a restart.  A relation that covers the three groups and a
few steps on the members covers all of them. -/

section Steps

variable {R : Node H → Node H → Prop} [IsPreorder (Node H) R]

/-- A relation that admits the three kinds of moves is respected by `Receive`. -/
theorem within_receive_of_moves (hcontrol : ∀ n n' : Node H, ControlMove n n' → R n n')
    (hlocal : ∀ n n' : Node H, LocalMove n n' → R n n') (M : ManifestMoves R)
    (hmissed : ∀ (n : Node H) b, R n { n with trace := { n.trace with missedManifest := b } })
    (channel : Channel) (frame : Frame H) : Within R (receive channel frame) :=
  within_receive hcontrol (fun n => hlocal _ _ (localMove_refreshLocal n))
    (fun n => hlocal _ _ (localMove_sendManifest n)) channel frame (M.receiveData frame)
    fun n => hmissed n _

/-- A relation that admits the three kinds of moves, and what the user can do, is respected by
every call. -/
theorem within_call (hcontrol : ∀ n n' : Node H, ControlMove n n' → R n n')
    (hlocal : ∀ n n' : Node H, LocalMove n n' → R n n') (M : TransferMoves R)
    (hedit : ∀ (n : Node H) folder, R n (n.edit folder))
    (hfault : ∀ (n : Node H) k, R n { n with faultAfter := some k }) (n : Node H) (c : Call H) :
    R n (n.call c) := by
  cases c with
  | start => exact within_start hcontrol (fun n => hlocal _ _ (localMove_refreshLocal n)) n
  | refreshLocal => exact hlocal _ _ (localMove_refreshLocal n)
  | performScan => exact hlocal _ _ (localMove_performScan n)
  | pump => exact M.pump hcontrol n
  | propose expectedHash rules source =>
    exact hcontrol _ _ (controlMove_proposeIgnorePolicy _ _ _ n)
  | edit folder => exact hedit n folder
  | fault k => exact hfault n k

omit [ContentHash H] in
/-- A part of the node that only depends on what remote changes leave alone. -/
theorem manifestMoves_same {γ : Type} {f : Node H → γ}
    (M : TransferMoves (Same f)) (hrecords : ∀ (n : Node H) records,
      f { n with db := { n.db with records := records } } = f n)
    (hlineage : ∀ (n : Node H) lineage, f { n with db := { n.db with lineage := lineage } } = f n)
    (hclock : ∀ (n : Node H) clock, f { n with db := { n.db with logicalClock := clock } } = f n)
    (hdownloads : ∀ (n : Node H) l, f { n with downloads := l } = f n)
    (hreceived : ∀ (n : Node H) b, f { n with receivedManifest := b } = f n)
    (htrace : ∀ (n : Node H) trace, f { n with trace := trace } = f n) :
    ManifestMoves (Same f) := by
  refine { M with
    entry := fun _ => { M with
      upsert := fun n _ _ _ => hrecords n _
      begin := fun n _ _ _ => hdownloads n _ }
    row := fun n _ _ h => ?_
    clock := fun n _ _ _ h => ?_
    observed := fun n _ => htrace n _
    received := fun n => hreceived n _
    applied := fun n _ => htrace n _ }
  · obtain ⟨-, -, -, lineage, rfl, -⟩ := Database.recordVersionLineage_eq_ok h
    exact hlineage n lineage
  · obtain ⟨-, -, rfl⟩ := advanceLogicalClock_le h
    exact hclock n _

omit [ContentHash H] in
theorem manifestMoves_identity : ManifestMoves (Same (identity (H := H))) :=
  manifestMoves_same ⟨fun _ => rfl, fun _ => rfl, fun _ => rfl, fun _ _ => rfl, fun _ _ => rfl,
    fun _ _ _ => rfl, fun _ _ => rfl, fun _ _ => rfl, fun _ _ _ => rfl, fun _ _ => rfl,
    fun _ _ _ => rfl⟩ (fun _ _ => rfl) (fun _ _ => rfl) (fun _ _ => rfl) (fun _ _ => rfl)
    (fun _ _ => rfl) fun _ _ => rfl

omit [ContentHash H] in
/-- Remote changes create no version. -/
theorem manifestMoves_minted : ManifestMoves (Same fun n : Node H => n.db.minted) :=
  manifestMoves_same ⟨fun _ => rfl, fun _ => rfl, fun _ => rfl, fun _ _ => rfl, fun _ _ => rfl,
    fun _ _ _ => rfl, fun _ _ => rfl, fun _ _ => rfl, fun _ _ _ => rfl, fun _ _ => rfl,
    fun _ _ _ => rfl⟩ (fun _ _ => rfl) (fun _ _ => rfl) (fun _ _ => rfl) (fun _ _ => rfl)
    (fun _ _ => rfl) fun _ _ => rfl

/-- Nothing changes what a node was set up with. -/
theorem identity_perform (n : Node H) (e : Event H) : (n.perform e).identity = n.identity := by
  have hcontrol : ∀ n n' : Node H, ControlMove n n' → Same identity n n' := fun n n' h =>
    congrArg₂ Prod.mk (congrArg DataView.config h.data) (congrArg DataView.uuid h.data)
  have hlocal : ∀ n n' : Node H, LocalMove n n' → Same identity n n' := fun n n' h =>
    congrArg₂ Prod.mk (congrArg ScanView.config h.view) (congrArg ScanView.uuid h.view)
  cases e with
  | call env c =>
    exact within_call hcontrol hlocal manifestMoves_identity.toTransferMoves (fun _ _ => rfl)
      (fun _ _ => rfl) { n with env := env } c
  | receive env channel frame =>
    exact within_receive_of_moves hcontrol hlocal manifestMoves_identity (fun _ _ => rfl) channel
      frame { n with env := env }
  | restart => rfl

end Steps

end Node

end VeritasSync
