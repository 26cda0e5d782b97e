import VeritasSync.Lib.Codec
import VeritasSync.Storage.TaskRows

/-!
# A task as its node sees it

A node works on the rows of its own task, as `Database H` has them: maps by key, hashes as values,
numbers without a width.  Here the functions on the tables are shown to do what those on `Database`
do, whatever is done to other tasks meanwhile.

The columns hold the texts of the node as they are; a text with a zero byte would be cut, so the
arguments are without.  A column has 64 bits, and an identifier of a transfer 16 bytes.

This is a refinement, with the tables as the concrete side.  `Shows` relates the rows of a task to
the `Database` of its node, and it is not a function in either direction: the tables hold the rows
of other tasks and columns that the node never reads, and the node holds `minted`, which is in no
table.  What is shown for each call is that whenever it returns on the tables the call of the same
name returns on the `Database` and the results are related again.

The other direction, that a call which throws throws for the same reason, is not needed.  A call
that throws changes nothing on either side, and a node that goes on from it goes on from what it
had.

## What is here

* `Coding` — how hashes are written.
* `Write`, `Op` — the calls of a node; `Op.apply` on its `Database`, `Op.call` on the tables.
* `Shows` — the rows of the task are those of the `Database`.
* `Op.refines` — **a call that returns does on the tables what it does on the `Database`.**
-/

set_option autoImplicit false

namespace VeritasSync

namespace Storage

open Exec Relational Transaction

variable {H : Type}

/-! ## Columns of a node -/

/-- How a hash is written: as a blob, and as a text. -/
structure Coding (H : Type) where
  blob : H → Bytes
  text : H → Bytes
  blob_length : ∀ hash, (blob hash).length = 32
  blob_injective : Function.Injective blob
  text_length : ∀ hash, (text hash).length = 64
  text_plain : ∀ hash, 0 ∉ text hash

/-- The sixteen bytes of an identifier. -/
def transferKey (transferId : VeritasSync.TransferId) : Storage.TransferId :=
  ⟨Codec.littleEndian 16 transferId, Codec.length_littleEndian 16 transferId⟩

theorem transferKey_inj {a b : VeritasSync.TransferId} (ha : a < 2 ^ 128) (hb : b < 2 ^ 128) :
    transferKey a = transferKey b ↔ a = b := by
  refine ⟨fun h => ?_, fun h => h ▸ rfl⟩
  have hbytes : Codec.littleEndian 16 a = Codec.littleEndian 16 b := congrArg Subtype.val h
  rw [← Codec.ofLittleEndian_littleEndian (w := 16) (n := a) (by norm_num; exact ha), hbytes,
    Codec.ofLittleEndian_littleEndian (w := 16) (n := b) (by norm_num; exact hb)]

/-- A number of a record. -/
def column (n : Nat) : Int := signed (UInt64.ofNat n)

def directionName : TransferDirection → Bytes
  | .upload => ascii "upload"
  | .download => ascii "download"

def stateName : TransferState → Bytes
  | .active => ascii "active"
  | .completed => ascii "completed"
  | .failed => ascii "failed"
  | .cancelled => ascii "cancelled"

def sourceName : PolicySource → Bytes
  | .manual => ascii "manual"
  | .ai => ascii "ai"
  | .undo => ascii "undo"
  | .other text => text

def policyStateName : PolicyState → Bytes
  | .proposed => ascii "proposed"
  | .prepared => ascii "prepared"
  | .committed => ascii "committed"
  | .applied => ascii "applied"

/-- A source that is not one of the three is another text. -/
def Proper (source : PolicySource) : Prop :=
  0 ∉ sourceName source ∧ (source.known = true ↔ sourceName source ∈ sources)

/-! ## Calls -/

/-- What a node calls, with one statement. -/
inductive Write (H : Type) where
  | upsertFileRecord (record : VeritasSync.FileRecord H)
  | recordVersionLineage (lineage : VeritasSync.VersionLineage)
  | advanceLogicalClock (observedRemoteClock : Nat)
  | recordConflict (conflict : VeritasSync.ConflictRecord)
  | createTransfer (transfer : VeritasSync.TransferRecord H)
  | updateTransferState (transferId : VeritasSync.TransferId) (state : TransferState)
      (updatedAtMs : Int) (errorCode : Option Bytes)
  | savePendingIgnorePolicy (policy : VeritasSync.PendingIgnorePolicy H)
  | clearPendingIgnorePolicy

/-- What a node calls. -/
inductive Op (H : Type) where
  | one (write : Write H)
  | markTransferChunksCompleted (transferId : VeritasSync.TransferId) (chunkIndices : List Nat)
      (updatedAtMs : Int)
  | recordIgnorePolicyRevision (content : Bytes) (contentHash : H) (source : PolicySource)
      (createdAtMs : Int)
  | inTransaction (body : List (Write H)) (thrown : Option Error)

/-- On the node's `Database`. -/
def Write.apply (db : Database H) : Write H → Except Error (Database H)
  | .upsertFileRecord record => db.upsertFileRecord record
  | .recordVersionLineage lineage => db.recordVersionLineage lineage
  | .advanceLogicalClock observed => (db.advanceLogicalClock observed).map Prod.snd
  | .recordConflict conflict => db.recordConflict conflict
  | .createTransfer transfer => db.createTransfer transfer
  | .updateTransferState transferId state updatedAtMs _ =>
    db.updateTransferState transferId state updatedAtMs
  | .savePendingIgnorePolicy policy => .ok (db.savePendingIgnorePolicy policy)
  | .clearPendingIgnorePolicy => .ok db.clearPendingIgnorePolicy

@[inherit_doc Write.apply]
def Op.apply (db : Database H) : Op H → Except Error (Database H)
  | .one write => write.apply db
  | .markTransferChunksCompleted transferId chunkIndices updatedAtMs =>
    db.markTransferChunksCompleted transferId chunkIndices updatedAtMs
  | .recordIgnorePolicyRevision content contentHash source createdAtMs =>
    (db.recordIgnorePolicyRevision content contentHash source createdAtMs).map Prod.snd
  | .inTransaction body thrown => do
    let db ← body.foldlM Write.apply db
    match thrown with
    | some e => throw e
    | none => pure db

section Coded

variable (coding : Coding H) (task : Bytes)

/-- The record that the function is given. -/
def codedRecord (record : VeritasSync.FileRecord H) : FileRecord :=
  ⟨task, record.relativePath, record.kind, UInt64.ofNat record.size, record.mtimeNs,
    (record.contentHash.map coding.blob).getD [], record.versionId, record.originDeviceId,
    UInt64.ofNat record.logicalClock, record.deletedAtMs⟩

@[inherit_doc codedRecord]
def codedConflict (conflict : VeritasSync.ConflictRecord) : ConflictRecord :=
  ⟨conflict.conflictId, task, conflict.originalPath, conflict.winningVersionId,
    conflict.conflictPath, conflict.state, conflict.createdAtMs⟩

@[inherit_doc codedRecord]
def codedTransfer (transfer : VeritasSync.TransferRecord H) : TransferRecord :=
  ⟨transferKey transfer.transferId, task, transfer.peerDeviceId,
    directionName transfer.direction, coding.blob transfer.fileHash, stateName transfer.state,
    transfer.createdAtMs, transfer.updatedAtMs, transfer.relativePath⟩

@[inherit_doc codedRecord]
def codedPolicy (policy : VeritasSync.PendingIgnorePolicy H) : PendingIgnorePolicy :=
  ⟨task, policy.proposalId, policy.originDeviceId, coding.text policy.baseHash, policy.rules,
    sourceName policy.source, policyStateName policy.state⟩

/-- On the tables. -/
def Write.statement : Write H → Statement
  | .upsertFileRecord record => .upsertFileRecord (codedRecord coding task record)
  | .recordVersionLineage lineage =>
    .recordVersionLineage ⟨task, lineage.versionId, lineage.parentVersionId⟩
  | .advanceLogicalClock observed => .advanceLogicalClock task (UInt64.ofNat observed)
  | .recordConflict conflict => .recordConflict (codedConflict task conflict)
  | .createTransfer transfer => .createTransfer (codedTransfer coding task transfer)
  | .updateTransferState transferId state updatedAtMs errorCode =>
    .updateTransferState (transferKey transferId) (stateName state) updatedAtMs errorCode
  | .savePendingIgnorePolicy policy => .savePendingIgnorePolicy (codedPolicy coding task policy)
  | .clearPendingIgnorePolicy => .clearPendingIgnorePolicy task

@[inherit_doc Write.statement]
def Op.call : Op H → Call
  | .one write => .one (write.statement coding task)
  | .markTransferChunksCompleted transferId chunkIndices updatedAtMs =>
    .markTransferChunksCompleted (transferKey transferId) (chunkIndices.map UInt64.ofNat)
      updatedAtMs
  | .recordIgnorePolicyRevision content contentHash source createdAtMs =>
    .recordIgnorePolicyRevision
      ⟨task, content, coding.text contentHash, sourceName source, createdAtMs⟩
  | .inTransaction body thrown => .inTransaction (body.map (Write.statement coding task)) thrown

end Coded

/-- The arguments fit their columns. -/
def Write.Fits (task : Bytes) : Write H → Prop
  | .upsertFileRecord record =>
    record.taskId = task ∧ 0 ∉ record.relativePath ∧ 0 ∉ record.versionId ∧
      0 ∉ record.originDeviceId
  | .recordVersionLineage lineage =>
    0 ∉ lineage.versionId ∧ ∀ parent, lineage.parentVersionId = some parent → 0 ∉ parent
  | .advanceLogicalClock observed => observed < 2 ^ 64
  | .recordConflict conflict =>
    0 ∉ conflict.conflictId ∧ 0 ∉ conflict.originalPath ∧ 0 ∉ conflict.winningVersionId ∧
      0 ∉ conflict.conflictPath ∧ 0 ∉ conflict.state
  | .createTransfer transfer =>
    transfer.transferId < 2 ^ 128 ∧ 0 ∉ transfer.peerDeviceId ∧ 0 ∉ transfer.relativePath ∧
      transfer.completedChunks = []
  | .updateTransferState transferId _ _ _ => transferId < 2 ^ 128
  | .savePendingIgnorePolicy policy =>
    0 ∉ policy.proposalId ∧ 0 ∉ policy.originDeviceId ∧ 0 ∉ policy.rules ∧ Proper policy.source
  | .clearPendingIgnorePolicy => True

@[inherit_doc Write.Fits]
def Op.Fits (task : Bytes) : Op H → Prop
  | .one write => write.Fits task
  | .markTransferChunksCompleted transferId chunkIndices _ =>
    transferId < 2 ^ 128 ∧ ∀ index ∈ chunkIndices, index < 2 ^ 64
  | .recordIgnorePolicyRevision _ _ source _ => Proper source
  | .inTransaction body _ => ∀ write ∈ body, write.Fits task

/-- No other task has the transfer. -/
def Own (tables : Tables) (task : Bytes) (transferId : VeritasSync.TransferId) : Prop :=
  ∀ row ∈ tables .transfers, row.transferId = some (transferKey transferId).val →
    row.taskId = task

/-- A transfer that a call names is not one of another task. -/
def Write.Owned (tables : Tables) (task : Bytes) : Write H → Prop
  | .updateTransferState transferId _ _ _ => Own tables task transferId
  | _ => True

/-- The calls of a transaction. -/
def OwnedBy (coding : Coding H) (task : Bytes) : List (Write H) → Tables → Prop
  | [], _ => True
  | write :: rest, tables =>
    write.Owned tables task ∧
      ∀ tables', (write.statement coding task).run tables = .ok ((), tables') →
        OwnedBy coding task rest tables'

@[inherit_doc Write.Owned]
def Op.Owned (coding : Coding H) (task : Bytes) (tables : Tables) : Op H → Prop
  | .one write => write.Owned tables task
  | .markTransferChunksCompleted transferId _ _ => Own tables task transferId
  | .recordIgnorePolicyRevision _ _ _ _ => True
  | .inTransaction body _ => OwnedBy coding task body tables

/-! ## The rows of a node -/

section Rows

variable (coding : Coding H) (task : Bytes)

def recordRow (record : VeritasSync.FileRecord H) : FileRecordRow :=
  ⟨task, record.relativePath, fileKindName record.kind, column record.size, record.mtimeNs,
    record.contentHash.map coding.blob, record.versionId, record.originDeviceId,
    column record.logicalClock, record.deletedAtMs⟩

def conflictRow (conflict : VeritasSync.ConflictRecord) : ConflictRow :=
  ⟨some conflict.conflictId, task, conflict.originalPath, conflict.winningVersionId,
    conflict.conflictPath, conflict.state, conflict.createdAtMs⟩

/-- The columns that a node reads. -/
def withoutError (row : TransferRow) : TransferRow := { row with errorCode := none }

def transferRow (transfer : VeritasSync.TransferRecord H) : TransferRow :=
  ⟨some (transferKey transfer.transferId).val, task, transfer.peerDeviceId,
    directionName transfer.direction, coding.blob transfer.fileHash, stateName transfer.state,
    none, transfer.createdAtMs, transfer.updatedAtMs, transfer.relativePath⟩

def policyRow (policy : VeritasSync.PendingIgnorePolicy H) : PendingIgnorePolicyRow :=
  ⟨some task, policy.proposalId, policy.originDeviceId, coding.text policy.baseHash, policy.rules,
    sourceName policy.source, policyStateName policy.state⟩

def revisionRow (revision : VeritasSync.IgnorePolicyRevision H) : IgnorePolicyRevisionRow :=
  ⟨task, revision.revision, revision.content, coding.text revision.contentHash,
    sourceName revision.source, revision.createdAtMs⟩

/-- The chunks of a transfer that have their mark. -/
def Marked (tables : Tables) (transferId : VeritasSync.TransferId) (index : Int) : Prop :=
  ∃ row ∈ tables .transferChunks, row.transferId = (transferKey transferId).val ∧
    row.chunkIndex = index ∧ row.completed = true

/-- **What the tables say about a task** is what its `Database` says. -/
structure Shows (tables : Tables) (db : Database H) : Prop where
  /-- The name of the task is a text. -/
  named : task ≠ [] ∧ 0 ∉ task
  records : ∀ path, ((tables .fileRecords).find? fun row =>
    row.taskId = task ∧ row.relativePath = path) =
      (db.records.find path).map (recordRow coding task)
  lineage : ∀ versionId, ((tables .versionLineage).find? fun row =>
    row.taskId = task ∧ row.versionId = versionId).map LineageRow.parentVersionId =
      db.lineage.find versionId
  clock : currentClock task tables = db.logicalClock
  conflicts : (tables .conflicts).filter (fun row => row.taskId = task) =
    db.conflicts.map (conflictRow task)
  transfers : ((tables .transfers).filter fun row => row.taskId = task).map withoutError =
    db.transfers.map (transferRow coding task)
  identifiers : ∀ transfer ∈ db.transfers, transfer.transferId < 2 ^ 128
  chunks : ∀ transfer ∈ db.transfers, ∀ index, Marked tables transfer.transferId index ↔
    ∃ n ∈ transfer.completedChunks, (n : Int) = index
  indexed : ∀ transfer ∈ db.transfers, transfer.completedChunks.Pairwise (· < ·)
  pending : ((tables .pendingIgnorePolicies).find? fun row => row.taskId = some task) =
    db.pendingPolicy.map (policyRow coding task)
  revisions : (tables .ignorePolicyRevisions).filter (fun row => row.taskId = task) =
    db.policyRevisions.map (revisionRow coding task)
  numbered : db.policyRevisions.Pairwise fun a b => a.revision < b.revision

end Rows

/-! ## Checks -/

variable {coding : Coding H} {task : Bytes} {tables tables' : Tables} {db db' : Database H}
  {u : Unit}

theorem codedRecord_contentHash (record : VeritasSync.FileRecord H) :
    (codedRecord coding task record).contentHash = [] ↔ record.contentHash.isNone = true := by
  rw [codedRecord]
  cases record.contentHash with
  | none => exact iff_of_true rfl rfl
  | some hash =>
    refine iff_of_false (fun h => ?_) Bool.false_ne_true
    have hlength := coding.blob_length hash
    rw [show coding.blob hash = [] from h] at hlength
    cases hlength

theorem validateFileRecord_coded {record : VeritasSync.FileRecord H}
    (htask : record.taskId = task) :
    validateFileRecord (codedRecord coding task record) =
      Database.validateFileRecord record := by
  rw [validateFileRecord, Database.validateFileRecord]
  simp only [codedRecord_contentHash]
  subst htask
  rfl

/-! ## The calls, one by one

A refinement proof for each writer, in the order of the source.  They have the same three parts: the
checks of the two sides agree, the row that is written is the row of the record, and the rows of the
other tables are untouched. -/

theorem codedRecord_row {record : VeritasSync.FileRecord H} (hnamed : 0 ∉ task)
    (hfits : (Write.upsertFileRecord record).Fits task) :
    (codedRecord coding task record).row = recordRow coding task record := by
  obtain ⟨-, hpath, hversion, horigin⟩ := hfits
  have hhash : (if (codedRecord coding task record).contentHash = [] then none
      else some (codedRecord coding task record).contentHash) =
      record.contentHash.map coding.blob := by
    cases hcontent : record.contentHash with
    | none => exact if_pos ((codedRecord_contentHash record).mpr (by rw [hcontent]; rfl))
    | some hash =>
      rw [if_neg fun hnil => by
        rw [codedRecord_contentHash, hcontent] at hnil
        exact Bool.false_ne_true hnil, codedRecord, hcontent]
      rfl
  rw [FileRecord.row, hhash]
  simp only [codedRecord, boundText_of_notMem hnamed, boundText_of_notMem hpath,
    boundText_of_notMem hversion, boundText_of_notMem horigin]
  rfl

theorem upsertFileRecord_refines (h : Shows coding task tables db)
    {record : VeritasSync.FileRecord H} (hfits : (Write.upsertFileRecord record).Fits task)
    (hrun : Statement.run (.upsertFileRecord (codedRecord coding task record)) tables =
      .ok (u, tables')) :
    ∃ db', db.upsertFileRecord record = .ok db' ∧ Shows coding task tables' db' := by
  obtain ⟨hvalidate, hwrite⟩ := Statement.run_ok hrun
  have hvalid : Database.validateFileRecord record = .ok () :=
    (validateFileRecord_coded hfits.1).symm.trans hvalidate
  obtain ⟨-, -, rfl⟩ := upsert_ok hwrite
  refine ⟨{ db with records := db.records.insert record.relativePath record }, ?_, h.named,
    fun path => ?_, h.lineage, h.clock, h.conflicts, h.transfers, h.identifiers, h.chunks,
    h.indexed, h.pending, h.revisions, h.numbered⟩
  · rw [Database.upsertFileRecord, hvalid]
    rfl
  rw [codedRecord_row h.named.2 hfits, OrdMap.find_insert, find?_upsertRow]
  · by_cases hpath : path = record.relativePath
    · subst hpath
      rw [if_pos (decide_eq_true ⟨rfl, rfl⟩), if_pos rfl]
      rfl
    · rw [if_neg (fun hrow => hpath (of_decide_eq_true hrow).2.symm), if_neg hpath]
      exact h.records path
  · intro old hkey
    obtain ⟨htask, hpath⟩ := of_decide_eq_true hkey
    rw [← htask, ← hpath]
  · intro old hkey
    obtain ⟨htask, hpath⟩ := of_decide_eq_true hkey
    rw [htask, hpath]
  · intro old hrow hold
    obtain ⟨htask, hpath⟩ := of_decide_eq_true hrow
    obtain ⟨htask', hpath'⟩ := of_decide_eq_true hold
    exact decide_eq_true ⟨htask.trans htask'.symm, hpath.trans hpath'.symm⟩

theorem recordVersionLineage_refines (h : Shows coding task tables db)
    {lineage : VeritasSync.VersionLineage}
    (hfits : (Write.recordVersionLineage (H := H) lineage).Fits task)
    (hrun : Statement.run (.recordVersionLineage
      ⟨task, lineage.versionId, lineage.parentVersionId⟩) tables = .ok (u, tables')) :
    ∃ db', db.recordVersionLineage lineage = .ok db' ∧ Shows coding task tables' db' := by
  obtain ⟨hvalidate, hwrite⟩ := Statement.run_ok hrun
  obtain ⟨hversion, hparent⟩ := hfits
  rw [Statement.validate] at hvalidate
  split at hvalidate
  · cases hvalidate
  rename_i hvalid
  rw [not_or] at hvalid
  have hlookup : findVersionLineage task lineage.versionId tables =
      .ok ((db.lineage.find lineage.versionId).map fun parent =>
        ⟨task, lineage.versionId, parent⟩) := by
    rw [findVersionLineage, if_neg (not_or.mpr ⟨h.named.1, (not_or.mp hvalid.2).1⟩),
      boundText_of_notMem h.named.2, boundText_of_notMem hversion, ← h.lineage, Option.map_map]
    rfl
  have hlookup' : db.findVersionLineage lineage.versionId =
      .ok ((db.lineage.find lineage.versionId).map fun parent => ⟨lineage.versionId, parent⟩) :=
    if_neg (not_or.mp hvalid.2).1
  -- an entry that is there already must agree; a new one becomes a row
  obtain ⟨existing, hfound, hrest⟩ := ok_of_bind hwrite
  rw [hlookup] at hfound
  rw [Database.recordVersionLineage, if_neg hvalid.2, hlookup']
  cases hfind : db.lineage.find lineage.versionId with
  | some parent =>
    rw [hfind] at hfound
    cases hfound
    obtain ⟨hsame, hrest⟩ := unless_eq_ok.mp hrest
    cases hrest
    exact ⟨db, unless_eq_ok.mpr ⟨hsame, rfl⟩, h⟩
  | none =>
    rw [hfind] at hfound
    cases hfound
    obtain ⟨-, hnew, -, rfl⟩ := insert_ok hrest
    refine ⟨_, rfl, h.named, h.records, fun versionId => ?_, h.clock, h.conflicts, h.transfers,
      h.identifiers, h.chunks, h.indexed, h.pending, h.revisions, h.numbered⟩
    have hrow : VersionLineage.row ⟨task, lineage.versionId, lineage.parentVersionId⟩ =
        ⟨task, lineage.versionId, lineage.parentVersionId⟩ := by
      rw [VersionLineage.row]
      dsimp only
      rw [boundText_of_notMem h.named.2, boundText_of_notMem hversion]
      cases hp : lineage.parentVersionId with
      | none => rfl
      | some parent => rw [Option.map_some, boundText_of_notMem (hparent parent hp)]
    rw [hrow] at hnew ⊢
    have hfresh : (tables .versionLineage).any (schema.sameKey .versionLineage
        ⟨task, lineage.versionId, lineage.parentVersionId⟩) = false := hnew
    rw [OrdMap.find_insert, find?_insertRow hfresh]
    · by_cases hv : versionId = lineage.versionId
      · subst hv
        rw [if_pos (decide_eq_true ⟨rfl, rfl⟩), if_pos rfl]
        rfl
      · rw [if_neg (fun hrow => hv (of_decide_eq_true hrow).2.symm), if_neg hv]
        exact h.lineage versionId
    · intro old hrow hold
      obtain ⟨htask, hv⟩ := of_decide_eq_true hrow
      obtain ⟨htask', hv'⟩ := of_decide_eq_true hold
      exact decide_eq_true ⟨htask.trans htask'.symm, hv.trans hv'.symm⟩

theorem advanceLogicalClock_refines (h : Shows coding task tables db) {observed : Nat}
    (hfits : observed < 2 ^ 64)
    (hrun : Statement.run (.advanceLogicalClock task (UInt64.ofNat observed)) tables =
      .ok (u, tables')) :
    ∃ db', (db.advanceLogicalClock observed).map Prod.snd = .ok db' ∧
      Shows coding task tables' db' := by
  obtain ⟨hvalidate, hwrite⟩ := Statement.run_ok hrun
  have hnat : (UInt64.ofNat observed).toNat = observed := by
    rw [UInt64.toNat_ofNat']
    exact Nat.mod_eq_of_lt hfits
  rw [Statement.validate] at hvalidate
  split at hvalidate
  · cases hvalidate
  rename_i hvalid
  rw [not_or, hnat] at hvalid
  obtain ⟨⟨n, tables₁⟩, hadvance, heq⟩ := ok_of_map hwrite
  cases heq
  obtain ⟨rfl, hmax, -, rfl⟩ := advanceClock_ok hadvance
  rw [hnat, h.clock] at hmax
  rw [hnat, h.clock]
  refine ⟨{ db with logicalClock := max db.logicalClock observed + 1 }, ?_, h.named, h.records,
    h.lineage, ?_, h.conflicts, h.transfers, h.identifiers, h.chunks, h.indexed, h.pending,
    h.revisions, h.numbered⟩
  · rw [Database.advanceLogicalClock, if_neg hvalid.2]
    dsimp only
    rw [if_neg hmax]
    rfl
  · rw [currentClock]
    dsimp only
    rw [find?_upsertRow]
    · rw [if_pos (decide_eq_true rfl)]
      rfl
    · intro old hkey
      obtain ⟨value, hvalue, hold⟩ := sameValue_iff.mp
        (show sameValue (some (boundText task)) old.taskId = true from hkey)
      rw [hold, ← hvalue]
    · intro old hkey
      obtain ⟨value, hvalue, hold⟩ := sameValue_iff.mp
        (show sameValue (some (boundText task)) old.taskId = true from hkey)
      rw [hold, ← hvalue]
    · intro old _ hold
      exact sameValue_iff.mpr ⟨boundText task, rfl, of_decide_eq_true hold⟩

theorem recordConflict_refines (h : Shows coding task tables db)
    {conflict : VeritasSync.ConflictRecord}
    (hfits : (Write.recordConflict (H := H) conflict).Fits task)
    (hrun : Statement.run (.recordConflict (codedConflict task conflict)) tables =
      .ok (u, tables')) :
    ∃ db', db.recordConflict conflict = .ok db' ∧ Shows coding task tables' db' := by
  obtain ⟨hvalidate, hwrite⟩ := Statement.run_ok hrun
  obtain ⟨hid, horiginal, hwinning, hpath, hstate⟩ := hfits
  obtain ⟨hvalid, hrest⟩ := unless_eq_ok.mp hvalidate
  obtain ⟨_, horiginalValid, hpathValid⟩ := ok_of_bind hrest
  obtain ⟨-, -, -, rfl⟩ := insert_ok hwrite
  have hrow : (codedConflict task conflict).row = conflictRow task conflict := by
    simp only [ConflictRecord.row, codedConflict, boundText_of_notMem h.named.2,
      boundText_of_notMem hid, boundText_of_notMem horiginal, boundText_of_notMem hwinning,
      boundText_of_notMem hpath, boundText_of_notMem hstate, conflictRow]
  refine ⟨{ db with conflicts := db.conflicts ++ [conflict] }, ?_, h.named, h.records, h.lineage,
    h.clock, ?_, h.transfers, h.identifiers, h.chunks, h.indexed, h.pending, h.revisions,
    h.numbered⟩
  · refine unless_eq_ok.mpr ⟨fun hbad => hvalid ?_, ?_⟩
    · rcases hbad with hbad | hbad
      · exact .inl hbad
      · exact .inr (.inr hbad)
    · have horiginal' : Database.validateRelativePath conflict.originalPath = .ok () :=
        horiginalValid
      have hpath' : Database.validateRelativePath conflict.conflictPath = .ok () := hpathValid
      rw [horiginal', hpath']
      rfl
  · have hown : [conflictRow task conflict].filter (fun row => row.taskId = task) =
        [conflictRow task conflict] := List.filter_cons_of_pos (decide_eq_true rfl)
    rw [insertRow_self, hrow, List.filter_append, h.conflicts, List.map_append, hown]
    rfl

/-! ## Transfers

The one place where the two sides have different shapes.  A transfer of the node is a row and the
rows of its marks, so a change of one list is two statements, or a row that refers to another
table. -/

theorem directionName_mem (direction : TransferDirection) :
    directionName direction ∈ directions ∧ boundText (directionName direction) =
      directionName direction := by
  cases direction <;> decide

theorem stateName_mem (state : TransferState) :
    stateName state ∈ transferStates ∧ boundText (stateName state) = stateName state := by
  cases state <;> decide

/-- A transfer of the node has its row. -/
theorem Shows.exists_transfer (h : Shows coding task tables db)
    {transfer : VeritasSync.TransferRecord H} (htransfer : transfer ∈ db.transfers) :
    ∃ row ∈ tables .transfers, row.transferId = some (transferKey transfer.transferId).val ∧
      row.taskId = task := by
  have hmem : transferRow coding task transfer ∈ ((tables .transfers).filter fun row =>
      row.taskId = task).map withoutError := by
    rw [h.transfers]
    exact List.mem_map_of_mem htransfer
  obtain ⟨row, hrow, heq⟩ := List.mem_map.mp hmem
  obtain ⟨hmem, htask⟩ := List.mem_filter.mp hrow
  exact ⟨row, hmem, congrArg TransferRow.transferId heq, of_decide_eq_true htask⟩

/-- A row of the task is a transfer of the node. -/
theorem exists_record {transfers : List (VeritasSync.TransferRecord H)}
    (hrows : ((tables .transfers).filter fun row => row.taskId = task).map withoutError =
      transfers.map (transferRow coding task)) {row : TransferRow}
    (hrow : row ∈ tables .transfers) (htask : row.taskId = task) :
    ∃ transfer ∈ transfers, row.transferId = some (transferKey transfer.transferId).val := by
  have hown : row ∈ (tables .transfers).filter fun row => row.taskId = task :=
    List.mem_filter.mpr ⟨hrow, decide_eq_true htask⟩
  have hmem : withoutError row ∈ transfers.map (transferRow coding task) := by
    rw [← hrows]
    exact List.mem_map_of_mem hown
  obtain ⟨transfer, htransfer, heq⟩ := List.mem_map.mp hmem
  exact ⟨transfer, htransfer, (congrArg TransferRow.transferId heq).symm⟩

theorem createTransfer_refines (h : Shows coding task tables db) (hconsistent : Consistent tables)
    {transfer : VeritasSync.TransferRecord H} (hfits : (Write.createTransfer transfer).Fits task)
    (hrun : Statement.run (.createTransfer (codedTransfer coding task transfer)) tables =
      .ok (u, tables')) :
    ∃ db', db.createTransfer transfer = .ok db' ∧ Shows coding task tables' db' := by
  obtain ⟨hvalidate, hwrite⟩ := Statement.run_ok hrun
  obtain ⟨hid, hpeer, hpath, hchunks⟩ := hfits
  obtain ⟨hvalid, hpathValid⟩ := unless_eq_ok.mp hvalidate
  obtain ⟨-, hnew, -, rfl⟩ := insert_ok hwrite
  have hrow : (codedTransfer coding task transfer).row = transferRow coding task transfer := by
    simp only [TransferRecord.row, codedTransfer, boundText_of_notMem h.named.2,
      boundText_of_notMem hpeer, boundText_of_notMem hpath, (directionName_mem _).2,
      (stateName_mem _).2, transferRow]
  -- no transfer of any task has this identifier
  have hfresh : ∀ row ∈ tables .transfers,
      row.transferId ≠ some (transferKey transfer.transferId).val := by
    intro row hmem heq
    refine List.any_eq_false.mp hnew row hmem (sameValue_iff.mpr ⟨_, rfl, heq⟩)
  have hunused : db.transfers.any (fun t => t.transferId = transfer.transferId) = false := by
    refine List.any_eq_false.mpr fun t ht heq => ?_
    obtain ⟨row, hmem, hkey, -⟩ := h.exists_transfer ht
    rw [of_decide_eq_true heq] at hkey
    exact hfresh row hmem hkey
  have hvalid' : Database.validateTransfer transfer = .ok () := by
    refine unless_eq_ok.mpr ⟨fun hbad => hvalid ?_, ?_⟩
    · rcases hbad with hbad | hbad | hbad | hbad
      · exact .inr (.inl hbad)
      · refine .inr (.inr (.inr (.inl ?_)))
        show ∀ byte ∈ (transferKey transfer.transferId).val, byte = 0
        rw [hbad]
        decide +kernel
      · exact .inr (.inr (.inr (.inr (.inr (.inr (.inl hbad))))))
      · exact .inr (.inr (.inr (.inr (.inr (.inr (.inr hbad))))))
    · exact hpathValid
  refine ⟨{ db with transfers := db.transfers ++ [transfer] }, ?_, h.named, h.records, h.lineage,
    h.clock, h.conflicts, ?_, fun t ht => ?_, fun t ht index => ?_, fun t ht => ?_, h.pending,
    h.revisions, h.numbered⟩
  · rw [Database.createTransfer, hvalid']
    simp only [bind, Except.bind, hunused]
    rfl
  · have hown : [transferRow coding task transfer].filter (fun row => row.taskId = task) =
        [transferRow coding task transfer] := List.filter_cons_of_pos (decide_eq_true rfl)
    rw [insertRow_self, hrow, List.filter_append, List.map_append, h.transfers, List.map_append,
      hown]
    rfl
  · rcases List.mem_append.mp ht with hold | hlast
    · exact h.identifiers t hold
    · rw [List.mem_singleton.mp hlast]
      exact hid
  · rcases List.mem_append.mp ht with hold | hlast
    · exact h.chunks t hold index
    · rw [List.mem_singleton.mp hlast, hchunks]
      refine iff_of_false (fun hmarked => ?_) (by simp)
      -- a mark refers to its transfer, so a new transfer has none
      obtain ⟨chunk, hmem, hkey, -⟩ := hmarked
      obtain ⟨row, hparent, hrefers⟩ := hconsistent.valid.foreignKeys .transferChunks toTransfers
        (List.mem_singleton_self _) chunk hmem rfl
      have hparentId : row.transferId = some chunk.transferId := of_decide_eq_true hrefers
      rw [hkey] at hparentId
      exact hfresh row hparent hparentId
  · rcases List.mem_append.mp ht with hold | hlast
    · exact h.indexed t hold
    · rw [List.mem_singleton.mp hlast, hchunks]
      exact List.Pairwise.nil

/-- The other tables are the same. -/
theorem Shows.of_transfers (h : Shows coding task tables db)
    {transfers : List (VeritasSync.TransferRecord H)}
    (hother : ∀ t, t ≠ .transfers → t ≠ .transferChunks → tables' t = tables t)
    (htransfers : ((tables' .transfers).filter fun row => row.taskId = task).map withoutError =
      transfers.map (transferRow coding task))
    (hidentifiers : ∀ transfer ∈ transfers, transfer.transferId < 2 ^ 128)
    (hchunks : ∀ transfer ∈ transfers, ∀ index, Marked tables' transfer.transferId index ↔
      ∃ n ∈ transfer.completedChunks, (n : Int) = index)
    (hindexed : ∀ transfer ∈ transfers, transfer.completedChunks.Pairwise (· < ·)) :
    Shows coding task tables' { db with transfers := transfers } := by
  refine ⟨h.named, ?_, ?_, ?_, ?_, htransfers, hidentifiers, hchunks, hindexed, ?_, ?_,
    h.numbered⟩
  · rw [hother _ (by decide) (by decide)]
    exact h.records
  · rw [hother _ (by decide) (by decide)]
    exact h.lineage
  · rw [currentClock, hother _ (by decide) (by decide)]
    exact h.clock
  · rw [hother _ (by decide) (by decide)]
    exact h.conflicts
  · rw [hother _ (by decide) (by decide)]
    exact h.pending
  · rw [hother _ (by decide) (by decide)]
    exact h.revisions

/-- One of the transfers. -/
def updated (transferId : VeritasSync.TransferId)
    (f : VeritasSync.TransferRecord H → VeritasSync.TransferRecord H)
    (transfers : List (VeritasSync.TransferRecord H)) : List (VeritasSync.TransferRecord H) :=
  transfers.map fun t => if t.transferId = transferId then f t else t

/-- The rows of the task are changed as the transfers of the node are, one by one. -/
theorem filter_updated {transferId : VeritasSync.TransferId} (hid : transferId < 2 ^ 128)
    {change : TransferRow → TransferRow}
    {f : VeritasSync.TransferRecord H → VeritasSync.TransferRecord H}
    (htask : ∀ row, (change row).taskId = row.taskId)
    (hchange : ∀ row t, withoutError row = transferRow coding task t →
      withoutError (change row) = transferRow coding task (f t)) (rows : List TransferRow) :
    ∀ transfers : List (VeritasSync.TransferRecord H), (∀ t ∈ transfers, t.transferId < 2 ^ 128) →
      (rows.filter fun row => row.taskId = task).map withoutError =
        transfers.map (transferRow coding task) →
      ((rows.map fun row => if decide (row.transferId = some (transferKey transferId).val) = true
        then change row else row).filter fun row => row.taskId = task).map withoutError =
        (updated transferId f transfers).map (transferRow coding task) := by
  induction rows with
  | nil =>
    intro transfers _ heq
    cases transfers with
    | nil => rfl
    | cons t rest => cases heq
  | cons row rest ih =>
    intro transfers hids heq
    set changed := if decide (row.transferId = some (transferKey transferId).val) = true
      then change row else row with hchanged
    have hsame : changed.taskId = row.taskId := by
      rw [hchanged]
      split
      · exact htask row
      · rfl
    rw [List.map_cons, ← hchanged, List.filter_cons]
    rw [List.filter_cons] at heq
    -- rows of other tasks are filtered away on both sides
    by_cases hrow : row.taskId = task
    · rw [if_pos (decide_eq_true hrow), List.map_cons] at heq
      rw [if_pos (decide_eq_true (hsame.trans hrow)), List.map_cons]
      cases transfers with
      | nil => cases heq
      | cons t ts =>
        obtain ⟨hhead, htail⟩ := List.cons.inj heq
        have hrest := ih ts (fun t' ht' => hids t' (List.mem_cons_of_mem t ht')) htail
        rw [updated, List.map_cons, List.map_cons, hrest]
        refine congrArg (· :: _) ?_
        have hrowKey : row.transferId = some (transferKey t.transferId).val :=
          congrArg TransferRow.transferId hhead
        by_cases ht : t.transferId = transferId
        · rw [if_pos ht, hchanged, if_pos (decide_eq_true (hrowKey.trans (by rw [ht])))]
          exact hchange row t hhead
        · have hother : ¬ decide (row.transferId = some (transferKey transferId).val) = true :=
            fun hselects => ht ((transferKey_inj (hids t List.mem_cons_self) hid).mp
              (Subtype.ext (Option.some.inj (hrowKey.symm.trans (of_decide_eq_true hselects)))))
          rw [if_neg ht, hchanged, if_neg hother]
          exact hhead
    · rw [if_neg fun heq => hrow (of_decide_eq_true heq)] at heq
      rw [if_neg fun heq => hrow (hsame.symm.trans (of_decide_eq_true heq))]
      exact ih transfers hids heq

/-- The row of one transfer is changed. -/
theorem updateTransfer_refines {transfers : List (VeritasSync.TransferRecord H)}
    (hrows : ((tables .transfers).filter fun row => row.taskId = task).map withoutError =
      transfers.map (transferRow coding task))
    (hids : ∀ t ∈ transfers, t.transferId < 2 ^ 128)
    {transferId : VeritasSync.TransferId} (hid : transferId < 2 ^ 128)
    (hown : Own tables task transferId) {what missing : String}
    {change : TransferRow → TransferRow}
    {f : VeritasSync.TransferRecord H → VeritasSync.TransferRecord H}
    (hrun : updateOne what .transfers missing
      (fun row => row.transferId = some (transferKey transferId).val) change tables =
        .ok (u, tables'))
    (htask : ∀ row, (change row).taskId = row.taskId)
    (hchange : ∀ row t, withoutError row = transferRow coding task t →
      withoutError (change row) = transferRow coding task (f t)) :
    (transfers.any fun t => t.transferId = transferId) = true ∧
      (∀ t, t ≠ .transfers → tables' t = tables t) ∧
      ((tables' .transfers).filter fun row => row.taskId = task).map withoutError =
        (updated transferId f transfers).map (transferRow coding task) := by
  obtain ⟨-, hone, -, rfl⟩ := updateOne_ok hrun
  refine ⟨?_, fun t ht => updateRows_of_ne ht, ?_⟩
  · obtain ⟨row, hrow⟩ := List.exists_mem_of_length_pos (by rw [hone]; exact Nat.one_pos)
    obtain ⟨hmem, hselects⟩ := List.mem_filter.mp hrow
    have hrowKey : row.transferId = some (transferKey transferId).val := of_decide_eq_true hselects
    obtain ⟨t, ht, hsame⟩ := exists_record hrows hmem (hown row hmem hrowKey)
    have hkeys : transferKey t.transferId = transferKey transferId :=
      Subtype.ext (Option.some.inj (hsame.symm.trans hrowKey))
    exact List.any_eq_true.mpr ⟨t, ht,
      decide_eq_true ((transferKey_inj (hids t ht) hid).mp hkeys)⟩
  · rw [updateRows_self]
    exact filter_updated hid htask hchange _ _ hids hrows

theorem mem_updated {transferId : VeritasSync.TransferId}
    {f : VeritasSync.TransferRecord H → VeritasSync.TransferRecord H}
    {transfers : List (VeritasSync.TransferRecord H)} {t : VeritasSync.TransferRecord H}
    (ht : t ∈ updated transferId f transfers) :
    ∃ old ∈ transfers, old.transferId = transferId ∧ t = f old ∨
      old.transferId ≠ transferId ∧ t = old := by
  obtain ⟨old, hold, rfl⟩ := List.mem_map.mp ht
  refine ⟨old, hold, ?_⟩
  split
  · rename_i hid
    exact .inl ⟨hid, rfl⟩
  · rename_i hid
    exact .inr ⟨hid, rfl⟩

theorem updateTransferState_refines (h : Shows coding task tables db)
    {transferId : VeritasSync.TransferId} (hid : transferId < 2 ^ 128)
    (hown : Own tables task transferId) {state : TransferState} {updatedAtMs : Int}
    {errorCode : Option Bytes}
    (hrun : Statement.run (.updateTransferState (transferKey transferId) (stateName state)
      updatedAtMs errorCode) tables = .ok (u, tables')) :
    ∃ db', db.updateTransferState transferId state updatedAtMs = .ok db' ∧
      Shows coding task tables' db' := by
  obtain ⟨hvalidate, hwrite⟩ := Statement.run_ok hrun
  rw [Statement.validate] at hvalidate
  split at hvalidate
  · cases hvalidate
  rename_i hvalid
  set f := fun t : VeritasSync.TransferRecord H =>
    { t with state := state, updatedAtMs := updatedAtMs } with hf
  have hupdate : updateOne "update transfer state" .transfers "transfer does not exist"
      (fun row => row.transferId = some (transferKey transferId).val)
      (fun row => { row with
        state := boundText (stateName state), errorCode := errorCode.map boundText
        updatedAtMs := updatedAtMs }) tables = .ok (u, tables') := hwrite
  obtain ⟨hany, hother, htransfers⟩ := updateTransfer_refines h.transfers h.identifiers hid hown
    (f := f) hupdate (fun _ => rfl) fun row t hrow => by
      simp only [withoutError, transferRow, TransferRow.mk.injEq] at hrow
      simp only [withoutError, transferRow, hrow, (stateName_mem state).2, hf]
  refine ⟨{ db with transfers := updated transferId f db.transfers }, ?_,
    h.of_transfers (fun t ht _ => hother t ht) htransfers (fun t ht => ?_) (fun t ht index => ?_)
      fun t ht => ?_⟩
  · rw [Database.updateTransferState, if_neg (not_or.mp hvalid).2, Database.updateTransfer,
      if_pos hany]
    rfl
  · obtain ⟨old, hold, ⟨-, rfl⟩ | ⟨-, rfl⟩⟩ := mem_updated ht
    · exact h.identifiers old hold
    · exact h.identifiers t hold
  · rw [Marked, hother _ (by decide)]
    obtain ⟨old, hold, ⟨-, rfl⟩ | ⟨-, rfl⟩⟩ := mem_updated ht
    · exact h.chunks old hold index
    · exact h.chunks t hold index
  · obtain ⟨old, hold, ⟨-, rfl⟩ | ⟨-, rfl⟩⟩ := mem_updated ht
    · exact h.indexed old hold
    · exact h.indexed t hold

/-! ## Chunks -/

theorem column_of_le {n : Nat} (h : n ≤ Database.int64Max) : column n = n := by
  have hbound : n < 2 ^ 63 := by
    rw [Database.int64Max] at h
    omega
  rw [column, signed, UInt64.toBitVec_ofNat', BitVec.toInt_eq_toNat_of_lt, BitVec.toNat_ofNat,
    Nat.mod_eq_of_lt (by omega)]
  rw [BitVec.toNat_ofNat, Nat.mod_eq_of_lt (by omega)]
  omega

/-- The mark of one chunk. -/
theorem markChunk_marked {transferId : VeritasSync.TransferId} {chunkIndex : UInt64}
    (hrun : markChunk (transferKey transferId) chunkIndex tables = .ok (u, tables')) :
    (∀ t, t ≠ .transferChunks → tables' t = tables t) ∧
      ∀ other index, Marked tables' other index ↔
        transferKey other = transferKey transferId ∧ index = signed chunkIndex ∨
          Marked tables other index := by
  obtain ⟨-, -, rfl⟩ := upsert_ok hrun
  set mark : TransferChunkRow := ⟨(transferKey transferId).val, signed chunkIndex, true⟩ with hmark
  have hkeys : ∀ old : TransferChunkRow, sameKey .transferChunks mark old = true →
      (transferKey transferId).val = old.transferId ∧ signed chunkIndex = old.chunkIndex :=
    fun _ hsame => of_decide_eq_true hsame
  have hnew : mark ∈ upsertRow schema .transferChunks mark
      (fun old => { old with completed := true }) tables .transferChunks :=
    mem_upsertRow fun old hsame => by
      obtain ⟨hid, hchunk⟩ := hkeys old hsame
      rw [hmark, hid, hchunk]
  refine ⟨fun t ht => upsertRow_of_ne ht, fun other index => ⟨fun hmarked => ?_, fun hmarked => ?_⟩⟩
  · obtain ⟨row, hrow, hkey, hindex, hcompleted⟩ := hmarked
    rcases mem_upsertRow_cases hrow with ⟨hold, -⟩ | rfl | ⟨old, hold, hsame, rfl⟩
    · exact .inr ⟨row, hold, hkey, hindex, hcompleted⟩
    · exact .inl ⟨Subtype.ext hkey.symm, hindex.symm⟩
    · obtain ⟨hid, hchunk⟩ := hkeys old hsame
      exact .inl ⟨Subtype.ext (hkey.symm.trans hid.symm), hindex.symm.trans hchunk.symm⟩
  · rcases hmarked with ⟨hkey, hindex⟩ | ⟨row, hrow, hkey, hindex, hcompleted⟩
    · exact ⟨mark, hnew, congrArg Subtype.val hkey.symm, hindex.symm, rfl⟩
    · by_cases hsame : sameKey .transferChunks mark row = true
      · obtain ⟨hid, hchunk⟩ := hkeys row hsame
        exact ⟨mark, hnew, hid.trans hkey, hchunk.trans hindex, rfl⟩
      · exact ⟨row, mem_upsertRow_of_mem hrow (Bool.eq_false_iff.mpr hsame), hkey, hindex,
          hcompleted⟩

/-- The marks of a list of chunks. -/
theorem marks_marked {transferId : VeritasSync.TransferId} {chunkIndices : List UInt64}
    (hrun : each (markChunk (transferKey transferId)) chunkIndices tables = .ok (u, tables')) :
    (∀ t, t ≠ .transferChunks → tables' t = tables t) ∧
      ∀ other index, Marked tables' other index ↔
        transferKey other = transferKey transferId ∧ (∃ i ∈ chunkIndices, index = signed i) ∨
          Marked tables other index := by
  induction chunkIndices generalizing tables with
  | nil =>
    cases hrun
    exact ⟨fun _ _ => rfl, fun other index => by simp⟩
  | cons i rest ih =>
    obtain ⟨tables₁, hmark, hrest⟩ := each_cons_ok hrun
    obtain ⟨hother, hmarked⟩ := markChunk_marked hmark
    obtain ⟨hother', hmarked'⟩ := ih hrest
    refine ⟨fun t ht => (hother' t ht).trans (hother t ht), fun other index => ?_⟩
    rw [hmarked', hmarked, or_left_comm]
    simp only [List.exists_mem_cons_iff, and_or_left, or_assoc]

theorem markTransferChunksCompleted_refines (h : Shows coding task tables db)
    {transferId : VeritasSync.TransferId} {chunkIndices : List Nat} {updatedAtMs : Int}
    (hfits :
      (Op.markTransferChunksCompleted (H := H) transferId chunkIndices updatedAtMs).Fits task)
    (hown : Own tables task transferId)
    (hrun : Call.run (.markTransferChunksCompleted (transferKey transferId)
      (chunkIndices.map UInt64.ofNat) updatedAtMs) tables = .ok (u, tables')) :
    ∃ db', db.markTransferChunksCompleted transferId chunkIndices updatedAtMs = .ok db' ∧
      Shows coding task tables' db' := by
  obtain ⟨hid, hindices⟩ := hfits
  obtain ⟨_, hvalidate, hrest⟩ := ok_of_bind hrun
  obtain ⟨⟨_, tables₁⟩, hmarks, htouch⟩ := ok_of_bind hrest
  obtain ⟨hother, hmarked⟩ := marks_marked hmarks
  have hnat : ∀ i ∈ chunkIndices, (UInt64.ofNat i).toNat = i := fun i hi => by
    rw [UInt64.toNat_ofNat']
    exact Nat.mod_eq_of_lt (hindices i hi)
  rw [validateChunks] at hvalidate
  split at hvalidate
  · cases hvalidate
  rename_i hvalid
  have hbound : ∀ i ∈ chunkIndices, i ≤ Database.int64Max := by
    intro i hi
    by_contra hlarge
    refine hvalid (.inr (.inr ⟨UInt64.ofNat i, List.mem_map_of_mem hi, ?_⟩))
    rw [hnat i hi]
    exact not_le.mp hlarge
  have hindex : ∀ i ∈ chunkIndices, signed (UInt64.ofNat i) = i :=
    fun i hi => column_of_le (hbound i hi)
  -- the last statement does to the row of the transfer what the function does
  set f := fun t : VeritasSync.TransferRecord H => { t with
    completedChunks := chunkIndices.foldl (fun done i => Database.insertIndex i done)
      t.completedChunks
    updatedAtMs := updatedAtMs } with hf
  have hrows : ((tables₁ .transfers).filter fun row => row.taskId = task).map withoutError =
      db.transfers.map (transferRow coding task) := by
    rw [hother _ (by decide)]
    exact h.transfers
  have hown₁ : Own tables₁ task transferId := by
    rw [Own, hother _ (by decide)]
    exact hown
  obtain ⟨hany, hother', htransfers⟩ := updateTransfer_refines hrows h.identifiers hid hown₁
    (f := f) htouch (fun _ => rfl) fun row t hrow => by
      simp only [withoutError, transferRow, TransferRow.mk.injEq] at hrow
      simp only [withoutError, transferRow, hrow, hf]
  refine ⟨{ db with transfers := updated transferId f db.transfers }, ?_,
    h.of_transfers (fun t ht hchunks => (hother' t ht).trans (hother t hchunks)) htransfers
      (fun t ht => ?_) (fun t ht index => ?_) fun t ht => ?_⟩
  · have hvalid' : ¬ (chunkIndices = [] ∨ updatedAtMs ≤ 0 ∨
        (chunkIndices.any fun i => i > Database.int64Max) = true) := by
      rintro (hnil | hnow | hlarge)
      · exact hvalid (.inl (by rw [hnil]; rfl))
      · exact hvalid (.inr (.inl hnow))
      · obtain ⟨i, hi, hlt⟩ := List.any_eq_true.mp hlarge
        exact absurd (hbound i hi) (not_le.mpr (of_decide_eq_true hlt))
    rw [Database.markTransferChunksCompleted, if_neg hvalid', Database.updateTransfer, if_pos hany]
    rfl
  · obtain ⟨old, hold, ⟨-, rfl⟩ | ⟨-, rfl⟩⟩ := mem_updated ht
    · exact h.identifiers old hold
    · exact h.identifiers t hold
  -- marks of another transfer are rows with another key
  · have hmarks : Marked tables' t.transferId index ↔ Marked tables₁ t.transferId index := by
      rw [Marked, Marked, hother' _ (by decide)]
    rw [hmarks, hmarked]
    obtain ⟨old, hold, ⟨hkey, rfl⟩ | ⟨hkey, rfl⟩⟩ := mem_updated ht
    · have hset := (Database.foldl_insertIndex chunkIndices (h.indexed old hold)).2
      have hbefore := h.chunks old hold index
      refine ⟨fun hnow => ?_, fun hnow => ?_⟩
      · rcases hnow with ⟨-, i, hi, heq⟩ | hold'
        · obtain ⟨n, hn, rfl⟩ := List.mem_map.mp hi
          exact ⟨n, (hset n).mpr (.inl hn), (hindex n hn).symm.trans heq.symm⟩
        · obtain ⟨n, hn, heq⟩ := hbefore.mp hold'
          exact ⟨n, (hset n).mpr (.inr hn), heq⟩
      · obtain ⟨n, hn, heq⟩ := hnow
        rcases (hset n).mp hn with hn | hn
        · exact .inl ⟨congrArg transferKey hkey, _, List.mem_map_of_mem hn,
            heq.symm.trans (hindex n hn).symm⟩
        · exact .inr (hbefore.mpr ⟨n, hn, heq⟩)
    · rw [h.chunks t hold, or_iff_right]
      exact fun hsame => hkey ((transferKey_inj (h.identifiers t hold) hid).mp hsame.1)
  · obtain ⟨old, hold, ⟨-, rfl⟩ | ⟨-, rfl⟩⟩ := mem_updated ht
    · exact (Database.foldl_insertIndex chunkIndices (h.indexed old hold)).1
    · exact h.indexed t hold

/-! ## Ignore policies -/

theorem policyStateName_bound (state : PolicyState) :
    boundText (policyStateName state) = policyStateName state := by
  cases state <;> decide

theorem savePendingIgnorePolicy_refines (h : Shows coding task tables db)
    {policy : VeritasSync.PendingIgnorePolicy H}
    (hfits : (Write.savePendingIgnorePolicy policy).Fits task)
    (hrun : Statement.run (.savePendingIgnorePolicy (codedPolicy coding task policy)) tables =
      .ok (u, tables')) :
    Shows coding task tables' (db.savePendingIgnorePolicy policy) := by
  obtain ⟨-, hwrite⟩ := Statement.run_ok hrun
  obtain ⟨hproposal, horigin, hrules, hsource⟩ := hfits
  obtain ⟨-, -, rfl⟩ := upsert_ok hwrite
  have hrow : (codedPolicy coding task policy).row = policyRow coding task policy := by
    simp only [PendingIgnorePolicy.row, codedPolicy, boundText_of_notMem h.named.2,
      boundText_of_notMem hproposal, boundText_of_notMem horigin,
      boundText_of_notMem (coding.text_plain _), boundText_of_notMem hrules,
      boundText_of_notMem hsource.1, policyStateName_bound, policyRow]
  refine ⟨h.named, h.records, h.lineage, h.clock, h.conflicts, h.transfers, h.identifiers,
    h.chunks, h.indexed, ?_, h.revisions, h.numbered⟩
  rw [hrow, find?_upsertRow]
  · exact if_pos (decide_eq_true rfl)
  · intro old hkey
    obtain ⟨value, hvalue, hold⟩ := sameValue_iff.mp
      (show sameValue (some task) old.taskId = true from hkey)
    rw [hold, ← hvalue]
    rfl
  · intro old hkey
    obtain ⟨value, hvalue, hold⟩ := sameValue_iff.mp
      (show sameValue (some task) old.taskId = true from hkey)
    rw [hold, ← hvalue]
    rfl
  · intro old _ hold
    exact sameValue_iff.mpr ⟨task, rfl, of_decide_eq_true hold⟩

theorem clearPendingIgnorePolicy_refines (h : Shows coding task tables db)
    (hrun : Statement.run (.clearPendingIgnorePolicy task) tables = .ok (u, tables')) :
    Shows coding task tables' db.clearPendingIgnorePolicy := by
  obtain ⟨-, hwrite⟩ := Statement.run_ok hrun
  obtain ⟨tables₁, hexecute, heq⟩ := ok_of_map hwrite
  cases heq
  obtain ⟨-, rfl⟩ := execute_eq_ok_iff.mp hexecute
  have hrows := delete_pending tables fun row => row.taskId = some (boundText task)
  have hother : ∀ t, t ≠ .pendingIgnorePolicies → delete schema (onTable .pendingIgnorePolicies
      fun row => row.taskId = some (boundText task)) tables t = tables t := by
    intro t ht
    rw [hrows]
    exact List.filter_eq_self.mpr fun row _ => by rw [onTable_of_ne ht]; rfl
  refine ⟨h.named, ?_, ?_, ?_, ?_, ?_, h.identifiers, ?_, h.indexed, ?_, ?_, h.numbered⟩
  · rw [hother _ (by decide)]
    exact h.records
  · rw [hother _ (by decide)]
    exact h.lineage
  · rw [currentClock, hother _ (by decide)]
    exact h.clock
  · rw [hother _ (by decide)]
    exact h.conflicts
  · rw [hother _ (by decide)]
    exact h.transfers
  · simp only [Marked]
    rw [hother _ (by decide)]
    exact h.chunks
  · refine List.find?_eq_none.mpr fun row hrow hselects => ?_
    rw [hrows] at hrow
    have hkept := (List.mem_filter.mp hrow).2
    rw [onTable_self, boundText_of_notMem h.named.2, hselects] at hkept
    cases hkept
  · rw [hother _ (by decide)]
    exact h.revisions

/-- The largest number of the revisions. -/
theorem Shows.lastRevision_eq (h : Shows coding task tables db) :
    lastRevision task tables =
      ((db.policyRevisions.map VeritasSync.IgnorePolicyRevision.revision).foldl max 0 : Nat) := by
  have hcast : ∀ (l : List (VeritasSync.IgnorePolicyRevision H)) (n : Nat),
      ((l.map (revisionRow coding task)).map IgnorePolicyRevisionRow.revision).foldl max (n : Int) =
        ((l.map VeritasSync.IgnorePolicyRevision.revision).foldl max n : Nat) := by
    intro l
    induction l with
    | nil => exact fun n => rfl
    | cons revision rest ih =>
      intro n
      simp only [List.map_cons, List.foldl_cons]
      have hmax : max (n : Int) (revisionRow coding task revision).revision =
          ((max n revision.revision : Nat) : Int) := (Nat.cast_max ..).symm
      rw [hmax]
      exact ih _
  rw [lastRevision, boundText_of_notMem h.named.2, h.revisions]
  exact hcast _ 0

theorem foldl_max_mem {l : List Nat} {n : Nat} : l.foldl max n = n ∨ l.foldl max n ∈ l := by
  induction l generalizing n with
  | nil => exact .inl rfl
  | cons m rest ih =>
    rcases ih (n := max n m) with heq | hmem
    · rw [List.foldl_cons, heq]
      rcases max_choice n m with hn | hm
      · exact .inl hn
      · rw [hm]
        exact .inr List.mem_cons_self
    · exact .inr (List.mem_cons_of_mem m hmem)

theorem recordIgnorePolicyRevision_refines (h : Shows coding task tables db)
    (hconsistent : Consistent tables) {content : Bytes} {contentHash : H} {source : PolicySource}
    {createdAtMs : Int} (hproper : Proper source)
    (hrun : Call.run (.recordIgnorePolicyRevision
      ⟨task, content, coding.text contentHash, sourceName source, createdAtMs⟩) tables =
        .ok (u, tables')) :
    ∃ db', (db.recordIgnorePolicyRevision content contentHash source createdAtMs).map Prod.snd =
      .ok db' ∧ Shows coding task tables' db' := by
  obtain ⟨_, hvalidate, hrest⟩ := ok_of_bind hrun
  obtain ⟨⟨number, tables₂⟩, hrows, heq⟩ := ok_of_map hrest
  cases heq
  obtain ⟨hnumber, hinsert, -, rfl⟩ := revisionRows_ok hrows
  obtain ⟨-, hnew, -, -⟩ := insert_ok hinsert
  rw [NewRevision.validate] at hvalidate
  split at hvalidate
  · cases hvalidate
  rename_i hvalid
  simp only [not_or, not_not] at hvalid
  obtain ⟨-, hcontent, -, hsource, hcreated⟩ := hvalid
  have hknown : source.known = true := hproper.2.mpr hsource
  set last := (db.policyRevisions.map VeritasSync.IgnorePolicyRevision.revision).foldl max 0
    with hlast
  have hother : ∀ r ∈ tables .ignorePolicyRevisions, r.taskId = task → r.revision ≠ number := by
    intro r hr htask heq
    refine List.any_eq_false.mp hnew r hr (decide_eq_true ⟨?_, heq.symm⟩)
    exact (boundText_of_notMem h.named.2).trans htask.symm
  -- a number that cannot grow is one that is taken
  have hnext : number = (last + 1 : Nat) := by
    rw [hnumber, nextRevision, h.lastRevision_eq]
    refine min_eq_left ?_
    by_contra hlarge
    rw [not_le, ← hlast] at hlarge
    have hlt : Database.int64Max < last + 1 := by exact_mod_cast hlarge
    rcases foldl_max_mem (l := db.policyRevisions.map VeritasSync.IgnorePolicyRevision.revision)
      (n := 0) with hzero | hmem
    · rw [← hlast] at hzero
      rw [hzero, Database.int64Max] at hlt
      omega
    · obtain ⟨revision, hrevision, hmax⟩ := List.mem_map.mp hmem
      rw [← hlast] at hmax
      have hrow : revisionRow coding task revision ∈
          (tables .ignorePolicyRevisions).filter fun row => row.taskId = task := by
        rw [h.revisions]
        exact List.mem_map_of_mem hrevision
      have hstored := (List.mem_filter.mp hrow).1
      have hle : ((revision.revision : Nat) : Int) ≤ (Database.int64Max : Int) :=
        hconsistent.numbers _ hstored
      refine hother _ hstored rfl ?_
      rw [hnumber, nextRevision, h.lastRevision_eq, ← hlast]
      show ((revision.revision : Nat) : Int) = _
      rw [hmax] at hle ⊢
      omega
  have hrow : NewRevision.row
      ⟨task, content, coding.text contentHash, sourceName source, createdAtMs⟩ number =
        revisionRow coding task ⟨last + 1, content, contentHash, source, createdAtMs⟩ := by
    rw [NewRevision.row]
    dsimp only
    rw [boundText_of_notMem h.named.2, boundText_of_notMem (coding.text_plain _),
      boundText_of_notMem hproper.1, hnext]
    rfl
  refine ⟨{ db with policyRevisions := db.policyRevisions ++
    [⟨last + 1, content, contentHash, source, createdAtMs⟩] }, ?_, h.named, ?_, ?_, ?_, ?_, ?_,
    h.identifiers, ?_, h.indexed, ?_, ?_, ?_⟩
  · rw [Database.recordIgnorePolicyRevision, if_neg]
    · rfl
    · rw [hknown]
      simp only [Bool.not_true, Bool.false_eq_true, false_or, not_or]
      exact ⟨hcontent, hcreated⟩
  · exact h.records
  · exact h.lineage
  · exact h.clock
  · exact h.conflicts
  · exact h.transfers
  · exact h.chunks
  · exact h.pending
  · have hown : [revisionRow coding task
        (⟨last + 1, content, contentHash, source, createdAtMs⟩ :
          VeritasSync.IgnorePolicyRevision H)].filter (fun row => row.taskId = task) = _ :=
      List.filter_cons_of_pos (decide_eq_true rfl)
    dsimp only
    rw [upsertRow_of_ne (by decide), insertRow_self, hrow, List.filter_append, h.revisions,
      List.map_append, hown]
    rfl
  · refine List.pairwise_append.mpr ⟨h.numbered, List.pairwise_singleton _ _, fun a ha b hb => ?_⟩
    rw [List.mem_singleton.mp hb]
    exact Nat.lt_succ_of_le (le_foldl_max (.inr (List.mem_map_of_mem ha)))

/-! ## All calls -/

/-- **A call with one statement.**  Where the statement fails nothing is claimed. -/
theorem Write.refines (write : Write H) (h : Shows coding task tables db)
    (hconsistent : Consistent tables) (hfits : write.Fits task) (howned : write.Owned tables task)
    (hrun : (write.statement coding task).run tables = .ok (u, tables')) :
    ∃ db', write.apply db = .ok db' ∧ Shows coding task tables' db' := by
  cases write with
  | upsertFileRecord record => exact upsertFileRecord_refines h hfits hrun
  | recordVersionLineage lineage => exact recordVersionLineage_refines h hfits hrun
  | advanceLogicalClock observed => exact advanceLogicalClock_refines h hfits hrun
  | recordConflict conflict => exact recordConflict_refines h hfits hrun
  | createTransfer transfer => exact createTransfer_refines h hconsistent hfits hrun
  | updateTransferState transferId state updatedAtMs errorCode =>
    exact updateTransferState_refines h hfits howned hrun
  | savePendingIgnorePolicy policy =>
    exact ⟨_, rfl, savePendingIgnorePolicy_refines h hfits hrun⟩
  | clearPendingIgnorePolicy => exact ⟨_, rfl, clearPendingIgnorePolicy_refines h hrun⟩

/-- The calls of a transaction. -/
theorem body_refines {body : List (Write H)} (h : Shows coding task tables db)
    (hconsistent : Consistent tables) (hfits : ∀ write ∈ body, write.Fits task)
    (howned : OwnedBy coding task body tables)
    (hrun : each Statement.run (body.map (Write.statement coding task)) tables =
      .ok (u, tables')) :
    ∃ db', body.foldlM Write.apply db = .ok db' ∧ Shows coding task tables' db' := by
  induction body generalizing tables db with
  | nil =>
    cases hrun
    exact ⟨db, rfl, h⟩
  | cons write rest ih =>
    obtain ⟨tables₁, hfirst, hrest⟩ := each_cons_ok hrun
    obtain ⟨hvalidate, hwrite⟩ := Statement.run_ok hfirst
    obtain ⟨db₁, happly, hshows⟩ :=
      write.refines h hconsistent (hfits write List.mem_cons_self) howned.1 hfirst
    obtain ⟨db', hfold, hshows'⟩ := ih hshows (Statement.consistent _ hvalidate hconsistent hwrite)
      (fun other hother => hfits other (List.mem_cons_of_mem write hother))
      (howned.2 tables₁ hfirst) hrest
    exact ⟨db', by rw [List.foldlM_cons, happly]; exact hfold, hshows'⟩

/-- **A call that returns does on the tables what it does on the `Database`.**  The converse is not
claimed: a storage may fail at any time, and a `Database` does not. -/
theorem Op.refines (op : Op H) (h : Shows coding task tables db) (hconsistent : Consistent tables)
    (hfits : op.Fits task) (howned : op.Owned coding task tables)
    (hrun : (op.call coding task).run tables = .ok (u, tables')) :
    ∃ db', op.apply db = .ok db' ∧ Shows coding task tables' db' := by
  cases op with
  | one write => exact write.refines h hconsistent hfits howned hrun
  | markTransferChunksCompleted transferId chunkIndices updatedAtMs =>
    exact markTransferChunksCompleted_refines h hfits howned hrun
  | recordIgnorePolicyRevision content contentHash source createdAtMs =>
    exact recordIgnorePolicyRevision_refines h hconsistent hfits hrun
  | inTransaction body thrown =>
    obtain ⟨⟨_, tables₁⟩, hbody, hend⟩ := ok_of_bind hrun
    obtain ⟨db', hfold, hshows⟩ := body_refines h hconsistent hfits howned hbody
    cases thrown with
    | some e => cases hend
    | none =>
      cases hend
      exact ⟨db', by rw [Op.apply, hfold]; rfl, hshows⟩

/-! ## Calls on other tasks

What is done for other tasks changes the tables and not the rows of this one, in their order, so
what the tables show of the task stays the same. -/

theorem find?_of_filter {α : Type} {l l' : List α} {p q q' : α → Bool}
    (h : l'.filter q' = l.filter q) (hq : ∀ a ∈ l, p a = true → q a = true)
    (hq' : ∀ a ∈ l', p a = true → q' a = true) : l'.find? p = l.find? p := by
  have hown : ∀ {l : List α} {q : α → Bool}, (∀ a ∈ l, p a = true → q a = true) →
      l.find? p = (l.filter q).find? p := by
    intro l q hq
    rw [← List.head?_filter, ← List.head?_filter, List.filter_filter]
    refine congrArg List.head? (List.filter_congr fun a ha => ?_)
    cases hp : p a with
    | false => rfl
    | true => exact (hq a ha hp).symm
  rw [hown hq', h, ← hown hq]

/-- A lookup in the rows of the task. -/
theorem SameRows.find? (h : SameRows task tables tables') {table : TableName}
    (hne : table ≠ .transferChunks) {p : Row table → Bool}
    (hp : ∀ row, p row = true → taskColumn table row = some task) :
    (tables' table).find? p = (tables table).find? p :=
  find?_of_filter (h table) (fun row _ hrow => (belongs_iff hne).mpr (hp row hrow))
    fun row _ hrow => (belongs_iff hne).mpr (hp row hrow)

/-- The rows of the task. -/
theorem SameRows.filter (h : SameRows task tables tables') {table : TableName}
    (hne : table ≠ .transferChunks) {p : Row table → Bool}
    (hp : ∀ row, p row = true ↔ taskColumn table row = some task) :
    (tables' table).filter p = (tables table).filter p := by
  have hbelongs : ∀ db, p = Belongs db task table := fun db =>
    funext fun row => Bool.eq_iff_iff.mpr ((hp row).trans (belongs_iff hne).symm)
  calc (tables' table).filter p
      = (tables' table).filter (Belongs tables' task table) := by rw [← hbelongs]
    _ = (tables table).filter (Belongs tables task table) := h table
    _ = (tables table).filter p := by rw [← hbelongs]

theorem SameRows.marked (h : SameRows task tables tables') {transferId : VeritasSync.TransferId}
    {row : TransferRow} (hrow : row ∈ tables .transfers)
    (hid : row.transferId = some (transferKey transferId).val) (htask : row.taskId = task)
    {index : Int} : Marked tables' transferId index ↔ Marked tables transferId index := by
  have hrow' : row ∈ tables' .transfers := by
    have hmem : row ∈ (tables' .transfers).filter (Belongs tables' task .transfers) := by
      rw [h .transfers]
      exact List.mem_filter.mpr ⟨hrow, (belongs_iff (by decide)).mpr (congrArg some htask)⟩
    exact List.mem_of_mem_filter hmem
  have hchunk : ∀ {db : Tables} {chunk : TransferChunkRow}, row ∈ db .transfers →
      chunk.transferId = (transferKey transferId).val →
        Belongs db task .transferChunks chunk = true :=
    fun hmem hkey => belongs_chunk_iff.mpr ⟨row, hmem, hid.trans (congrArg some hkey.symm), htask⟩
  refine ⟨fun hmarked => ?_, fun hmarked => ?_⟩
  · obtain ⟨chunk, hmem, hkey, hrest⟩ := hmarked
    have hown := List.mem_filter.mpr ⟨hmem, hchunk hrow' hkey⟩
    rw [h .transferChunks] at hown
    exact ⟨chunk, List.mem_of_mem_filter hown, hkey, hrest⟩
  · obtain ⟨chunk, hmem, hkey, hrest⟩ := hmarked
    have hown := List.mem_filter.mpr ⟨hmem, hchunk hrow hkey⟩
    rw [← h .transferChunks] at hown
    exact ⟨chunk, List.mem_of_mem_filter hown, hkey, hrest⟩

/-- **What is done to other tasks cannot be seen.**  Together with the theorem about calls this
makes tasks independent of one another. -/
theorem Shows.of_sameRows (h : Shows coding task tables db) (hsame : SameRows task tables tables') :
    Shows coding task tables' db := by
  have hbound : boundText task = task := boundText_of_notMem h.named.2
  refine ⟨h.named, fun path => ?_, fun versionId => ?_, ?_, ?_, ?_, h.identifiers,
    fun t ht index => ?_, h.indexed, ?_, ?_, h.numbered⟩
  · rw [← h.records]
    exact hsame.find? (by decide) fun row hrow => congrArg some (of_decide_eq_true hrow).1
  · rw [← h.lineage]
    exact congrArg _ (hsame.find? (by decide) fun row hrow =>
      congrArg some (of_decide_eq_true hrow).1)
  · have hclock : (tables' .taskClocks).find? (fun row => row.taskId = some (boundText task)) =
        (tables .taskClocks).find? fun row => row.taskId = some (boundText task) :=
      hsame.find? (by decide) fun row hrow => by
        rw [hbound] at hrow
        exact of_decide_eq_true hrow
    rw [← h.clock, currentClock, hclock]
    rfl
  · rw [← h.conflicts]
    refine hsame.filter (by decide) fun row => ?_
    exact decide_eq_true_iff.trans (Option.some_inj (b := task)).symm
  · rw [← h.transfers]
    refine congrArg _ (hsame.filter (by decide) fun row => ?_)
    exact decide_eq_true_iff.trans (Option.some_inj (b := task)).symm
  · rw [← h.chunks t ht]
    obtain ⟨row, hrow, hid, htask⟩ := h.exists_transfer ht
    exact hsame.marked hrow hid htask
  · rw [← h.pending]
    exact hsame.find? (by decide) fun row hrow => of_decide_eq_true hrow
  · rw [← h.revisions]
    refine hsame.filter (by decide) fun row => ?_
    exact decide_eq_true_iff.trans (Option.some_inj (b := task)).symm

end Storage

end VeritasSync
