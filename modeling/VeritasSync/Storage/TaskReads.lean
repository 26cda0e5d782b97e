import VeritasSync.Storage.Lineage
import VeritasSync.Storage.TaskView

/-!
# What a node reads

The functions of `storage::Database` that read the rows of a task, and what they return to the node
of the task: what the node's `Database` has.  A text is read up to its first zero byte, so the
columns of the node must be without; only the rules of a revision are stored with what comes after
it.

The functions that read are `SELECT`s over rows of all tasks, with an order and sometimes a limit.
A node asks for the rows of its own task and gets values of its own types.  That both agree is shown
function by function, and `Reads` collects it: one structure with a field for each read, of the
tables on one side and the `Database` on the other.

Some fields have a condition.  A lookup with an argument that contains a zero byte would be a lookup
of another text, and a list of revisions is limited by the interface to two hundred rows.  The node
keeps its own texts free of zero bytes only if its peers do, which is why a run has the condition
`World.Admits` and not just the arguments of a call.

## What is here

* `findFileRecord` and the others — the functions on the tables.
* `Plain` — the texts of a node have no zero bytes; `Op.plain` keeps it.
* `Reads`, `Shows.reads` — **every read returns what the `Database` has**.
* `task_runs` — **from the creation of a task on**, whatever the storage fails and whatever is
  called for other tasks.
-/

set_option autoImplicit false

namespace VeritasSync

namespace Storage

open Exec Relational Transaction

variable {H : Type}

/-! ## The functions

As they are in the source: the checks on the arguments, the query, and what is done with a column
that is NULL or that holds a text nobody expects. -/

/-- `ParseFileKind`: the kind that a column names.  Another text is an exception. -/
def parseFileKind (value : Bytes) : Except Error FileKind :=
  if value = ascii "file" then .ok .file
  else if value = ascii "directory" then .ok .directory
  else if value = ascii "tombstone" then .ok .tombstone
  else .error (.runtimeError "database contains an unknown file kind")

/-- The columns of a record.  A hash that is NULL is read as no bytes. -/
def readFileRecord (taskId relativePath : Bytes) (row : FileRecordRow) :
    Except Error FileRecord := do
  let kind ← parseFileKind (boundText row.kind)
  pure ⟨taskId, relativePath, kind, unsigned row.size, row.mtimeNs, row.contentHash.getD [],
    boundText row.versionId, boundText row.originDeviceId, unsigned row.logicalClock,
    row.deletedAtMs⟩

/-- `FindFileRecord`: the row with this key, if there is one, as a record. -/
def findFileRecord (taskId relativePath : Bytes) (db : Tables) :
    Except Error (Option FileRecord) := do
  Database.validateRelativePath relativePath
  match (db .fileRecords).find? fun row =>
    row.taskId = boundText taskId ∧ row.relativePath = boundText relativePath with
  | none => pure none
  | some row => some <$> readFileRecord taskId relativePath row

/-- `ListFileRecords`: the rows of the task by path.  One that cannot be read makes the whole call
fail. -/
def listFileRecords (taskId : Bytes) (db : Tables) : Except Error (List FileRecord) :=
  if taskId = [] then .error (.invalidArgument "task id is required")
  else
    (orderBy FileRecordRow.relativePath
      ((db .fileRecords).filter fun row => row.taskId = boundText taskId)).mapM fun row =>
        readFileRecord taskId (boundText row.relativePath) row

/-- `ListVersionLineage`: the rows of the task by version. -/
def listVersionLineage (taskId : Bytes) (db : Tables) : Except Error (List VersionLineage) :=
  if taskId = [] then .error (.invalidArgument "version lineage task id is required")
  else .ok ((orderBy LineageRow.versionId
    ((db .versionLineage).filter fun row => row.taskId = boundText taskId)).map fun row =>
      ⟨taskId, boundText row.versionId, row.parentVersionId.map boundText⟩)

/-- `IsVersionAncestor`: the walk from the descendant along the parent column, up to its limit. -/
def isVersionAncestor (taskId ancestor descendant : Bytes) (db : Tables) : Except Error Bool :=
  LineageTable.isVersionAncestor ⟨(db .tasks).filterMap TaskRow.taskId, db .versionLineage⟩
    taskId ancestor descendant

/-- The order of the conflicts. -/
def conflictKey (createdAtMs : Int) (conflictId : Bytes) : Int ×ₗ Bytes :=
  toLex (createdAtMs, conflictId)

/-- `ListConflicts` of a task. -/
def listConflicts (taskId : Bytes) (db : Tables) : Except Error (List ConflictRecord) :=
  if taskId = [] then .error (.invalidArgument "conflict task id is required")
  else .ok ((orderBy (fun row => conflictKey row.createdAtMs (row.conflictId.getD []))
    ((db .conflicts).filter fun row => row.taskId = boundText taskId)).map fun row =>
      ⟨boundText (row.conflictId.getD []), taskId, boundText row.originalPath,
        boundText row.winningVersionId, boundText row.conflictPath, boundText row.state,
        row.createdAtMs⟩)

/-- `FindPendingIgnorePolicy`: the proposal of the task, if there is one. -/
def findPendingIgnorePolicy (taskId : Bytes) (db : Tables) : Option PendingIgnorePolicy :=
  ((db .pendingIgnorePolicies).find? fun row => row.taskId = some (boundText taskId)).map
    fun row => ⟨taskId, boundText row.proposalId, boundText row.originDeviceId,
      boundText row.baseHash, boundText row.rules, boundText row.source, boundText row.state⟩

/-- `IgnorePolicyRevision`, with the columns as they are read. -/
structure IgnorePolicyRevision where
  taskId : Bytes
  revision : UInt64
  content : Bytes
  contentHash : Bytes
  source : Bytes
  createdAtMs : Int

/-- The columns of a revision. -/
def readRevision (taskId : Bytes) (row : IgnorePolicyRevisionRow) : IgnorePolicyRevision :=
  ⟨taskId, unsigned row.revision, boundText row.content, boundText row.contentHash,
    boundText row.source, row.createdAtMs⟩

/-- `CurrentIgnorePolicyRevision`: the rows of the two tables that join. -/
def currentIgnorePolicyRevision (taskId : Bytes) (db : Tables) :
    Except Error (Option IgnorePolicyRevision) :=
  if taskId = [] then .error (.invalidArgument "ignore policy task is required")
  else .ok (((db .ignorePolicyState).findSome? fun state =>
    if state.taskId = some (boundText taskId) then
      (db .ignorePolicyRevisions).find? fun row =>
        some row.taskId = state.taskId ∧ row.revision = state.revision
    else none).map (readRevision taskId))

/-- `ListIgnorePolicyRevisions`: the latest revisions of the task, as many as the limit admits. -/
def listIgnorePolicyRevisions (taskId : Bytes) (limit : Nat) (db : Tables) :
    Except Error (List IgnorePolicyRevision) :=
  if taskId = [] ∨ limit = 0 ∨ limit > 200 then
    .error (.invalidArgument "ignore policy history request is invalid")
  else .ok (((orderBy IgnorePolicyRevisionRow.revision
    ((db .ignorePolicyRevisions).filter fun row => row.taskId = boundText taskId)).reverse.take
      limit).map (readRevision taskId))

/-- The newest row, the first one on a tie. -/
def newestTransfer : List TransferRow → Option TransferRow
  | [] => none
  | row :: rest =>
    some (rest.foldl (fun a b => if a.createdAtMs < b.createdAtMs then b else a) row)

/-- The columns of a transfer. -/
def readTransfer (taskId peerDeviceId : Bytes) (row : TransferRow) :
    Except Error TransferRecord :=
  if hid : (row.transferId.getD []).length = 16 then
    .ok ⟨⟨row.transferId.getD [], hid⟩, taskId, peerDeviceId, boundText row.direction,
      row.fileHash, boundText row.state, row.createdAtMs, row.updatedAtMs,
      boundText row.relativePath⟩
  else .error (.runtimeError "database contains an invalid transfer id")

/-- `FindActiveDownloadTransfer`: a download of this file from this peer that has begun and not
ended. -/
def findActiveDownloadTransfer (taskId peerDeviceId relativePath fileHash : Bytes) (db : Tables) :
    Except Error (Option TransferRecord) := do
  if taskId = [] ∨ peerDeviceId = [] ∨ fileHash.length ≠ 32 then
    throw (.invalidArgument "active transfer lookup is invalid")
  Database.validateRelativePath relativePath
  match newestTransfer ((db .transfers).filter fun row =>
    row.taskId = boundText taskId ∧ row.peerDeviceId = boundText peerDeviceId ∧
      row.relativePath = boundText relativePath ∧ row.fileHash = fileHash ∧
      row.direction = ascii "download" ∧ row.state = ascii "active") with
  | none => pure none
  | some row => some <$> readTransfer taskId peerDeviceId row

/-- `CompletedTransferChunks`: the marks of a transfer, by index. -/
def completedTransferChunks (transferId : TransferId) (db : Tables) : List UInt64 :=
  (orderBy id (((db .transferChunks).filter fun row =>
    row.transferId = transferId.val ∧ row.completed = true).map
      TransferChunkRow.chunkIndex)).map unsigned

/-- `TransferState`: the state column of a transfer, if it has a row. -/
def findTransferState (transferId : TransferId) (db : Tables) : Option Bytes :=
  ((db .transfers).find? fun row => row.transferId = some transferId.val).map fun row =>
    boundText row.state

/-! ## Texts without zero bytes -/

/-- What a node has put in its columns, it reads back. -/
structure Plain (task : Bytes) (db : Database H) : Prop where
  records : ∀ path record, db.records.find path = some record →
    (Write.upsertFileRecord record).Fits task
  lineage : ∀ versionId parent, db.lineage.find versionId = some parent →
    (Write.recordVersionLineage (H := H) ⟨versionId, parent⟩).Fits task ∧ parent ≠ some []
  conflicts : ∀ conflict ∈ db.conflicts, (Write.recordConflict (H := H) conflict).Fits task
  transfers : ∀ t ∈ db.transfers, 0 ∉ t.peerDeviceId ∧ 0 ∉ t.relativePath
  pending : ∀ policy, db.pendingPolicy = some policy →
    (Write.savePendingIgnorePolicy policy).Fits task
  revisions : ∀ revision ∈ db.policyRevisions, Proper revision.source

variable {coding : Coding H} {task : Bytes} {tables tables' : Tables} {db db' : Database H}

theorem plain_empty (task : Bytes) : Plain task (Database.empty : Database H) := by
  refine ⟨fun path record h => ?_, fun versionId parent h => ?_, fun _ h => ?_, fun _ h => ?_,
    fun policy h => ?_, fun _ h => ?_⟩ <;> cases h

/-- Transfers that keep their names. -/
theorem Plain.updateTransfer (h : Plain task db) {transferId : VeritasSync.TransferId}
    {f : VeritasSync.TransferRecord H → VeritasSync.TransferRecord H}
    (hupdate : db.updateTransfer transferId f = .ok db')
    (hf : ∀ t, (f t).peerDeviceId = t.peerDeviceId ∧ (f t).relativePath = t.relativePath) :
    Plain task db' := by
  rw [Database.updateTransfer_eq_ok hupdate]
  refine ⟨h.records, h.lineage, h.conflicts, fun t ht => ?_, h.pending, h.revisions⟩
  obtain ⟨old, hold, ⟨-, rfl⟩ | ⟨-, rfl⟩⟩ := mem_updated ht
  · rw [(hf old).1, (hf old).2]
    exact h.transfers old hold
  · exact h.transfers t hold

theorem Write.plain (write : Write H) (h : Plain task db) (hfits : write.Fits task)
    (hrun : write.apply db = .ok db') : Plain task db' := by
  cases write with
  | upsertFileRecord record =>
    obtain ⟨-, rfl⟩ := Database.upsertFileRecord_eq_ok hrun
    refine ⟨fun path other hfind => ?_, h.lineage, h.conflicts, h.transfers, h.pending,
      h.revisions⟩
    rw [OrdMap.find_insert] at hfind
    split at hfind
    · cases hfind
      exact hfits
    · exact h.records path other hfind
  | recordVersionLineage lineage =>
    have hparent : lineage.parentVersionId ≠ some [] := by
      have hvalid : (Database.recordVersionLineage db lineage) = .ok db' := hrun
      rw [Database.recordVersionLineage] at hvalid
      split at hvalid
      · cases hvalid
      · rename_i hne
        exact (not_or.mp (not_or.mp hne).2).1
    obtain ⟨-, -, -, rows, rfl, hrows⟩ := Database.recordVersionLineage_eq_ok hrun
    refine ⟨h.records, fun versionId parent hfind => ?_, h.conflicts, h.transfers, h.pending,
      h.revisions⟩
    rw [hrows] at hfind
    split at hfind
    · rename_i hversion
      cases hfind
      subst hversion
      exact ⟨hfits, hparent⟩
    · exact h.lineage versionId parent hfind
  | advanceLogicalClock observed =>
    obtain ⟨⟨n, db''⟩, hadvance, heq⟩ := ok_of_map hrun
    cases heq
    obtain ⟨-, rfl⟩ := Database.advanceLogicalClock_eq_ok hadvance
    exact ⟨h.records, h.lineage, h.conflicts, h.transfers, h.pending, h.revisions⟩
  | recordConflict conflict =>
    rw [Database.recordConflict_eq_ok hrun]
    refine ⟨h.records, h.lineage, fun other hother => ?_, h.transfers, h.pending, h.revisions⟩
    rcases List.mem_append.mp hother with hold | hlast
    · exact h.conflicts other hold
    · rw [List.mem_singleton.mp hlast]
      exact hfits
  | createTransfer transfer =>
    obtain ⟨-, rfl⟩ := Database.createTransfer_eq_ok hrun
    refine ⟨h.records, h.lineage, h.conflicts, fun t ht => ?_, h.pending, h.revisions⟩
    rcases List.mem_append.mp ht with hold | hlast
    · exact h.transfers t hold
    · rw [List.mem_singleton.mp hlast]
      exact ⟨hfits.2.1, hfits.2.2.1⟩
  | updateTransferState transferId state updatedAtMs errorCode =>
    have hupdate : db.updateTransferState transferId state updatedAtMs = .ok db' := hrun
    rw [Database.updateTransferState] at hupdate
    split at hupdate
    · cases hupdate
    · exact h.updateTransfer hupdate fun _ => ⟨rfl, rfl⟩
  | savePendingIgnorePolicy policy =>
    cases hrun
    refine ⟨h.records, h.lineage, h.conflicts, h.transfers, fun other hother => ?_, h.revisions⟩
    cases hother
    exact hfits
  | clearPendingIgnorePolicy =>
    cases hrun
    refine ⟨h.records, h.lineage, h.conflicts, h.transfers, fun other hother => ?_, h.revisions⟩
    cases hother

theorem Op.plain (op : Op H) (h : Plain task db) (hfits : op.Fits task)
    (hrun : op.apply db = .ok db') : Plain task db' := by
  cases op with
  | one write => exact write.plain h hfits hrun
  | markTransferChunksCompleted transferId chunkIndices updatedAtMs =>
    have hupdate : db.markTransferChunksCompleted transferId chunkIndices updatedAtMs =
      .ok db' := hrun
    rw [Database.markTransferChunksCompleted] at hupdate
    split at hupdate
    · cases hupdate
    · exact h.updateTransfer hupdate fun _ => ⟨rfl, rfl⟩
  | recordIgnorePolicyRevision content contentHash source createdAtMs =>
    obtain ⟨⟨recorded, db''⟩, hrecord, heq⟩ := ok_of_map hrun
    cases heq
    rw [Database.recordIgnorePolicyRevision] at hrecord
    split at hrecord
    · cases hrecord
    cases hrecord
    refine ⟨h.records, h.lineage, h.conflicts, h.transfers, h.pending, fun other hother => ?_⟩
    rcases List.mem_append.mp hother with hold | hlast
    · exact h.revisions other hold
    · rw [List.mem_singleton.mp hlast]
      exact hfits
  | inTransaction body thrown =>
    obtain ⟨db₁, hbody, hend⟩ := ok_of_bind hrun
    have hplain : Plain task db₁ := by
      clear hrun hend
      induction body generalizing db with
      | nil =>
        cases hbody
        exact h
      | cons write rest ih =>
        rw [List.foldlM_cons] at hbody
        obtain ⟨db₂, hfirst, hrest⟩ := ok_of_bind hbody
        exact ih (write.plain h (hfits write List.mem_cons_self) hfirst)
          (fun other hother => hfits other (List.mem_cons_of_mem write hother)) hrest
    cases thrown with
    | some e => cases hend
    | none =>
      cases hend
      exact hplain

/-! ## Records -/

theorem mapM_ok {α β : Type} {f : α → Except Error β} {g : α → β} {l : List α}
    (h : ∀ a ∈ l, f a = .ok (g a)) : l.mapM f = .ok (l.map g) := by
  induction l with
  | nil => rfl
  | cons a rest ih =>
    rw [List.mapM_cons, h a List.mem_cons_self, ih fun b hb => h b (List.mem_cons_of_mem a hb)]
    rfl

theorem parseFileKind_name (kind : FileKind) :
    parseFileKind (boundText (fileKindName kind)) = .ok kind := by
  cases kind <;> rfl

theorem readFileRecord_row {record : VeritasSync.FileRecord H}
    (hfits : (Write.upsertFileRecord record).Fits task) :
    readFileRecord task record.relativePath (recordRow coding task record) =
      .ok (codedRecord coding task record) := by
  obtain ⟨-, -, hversion, horigin⟩ := hfits
  rw [readFileRecord]
  simp only [recordRow, parseFileKind_name, column, unsigned_signed,
    boundText_of_notMem hversion, boundText_of_notMem horigin]
  rfl

theorem Shows.mem_records (h : Shows coding task tables db) (hvalid : Valid schema tables)
    {row : FileRecordRow} :
    row ∈ (tables .fileRecords).filter (fun row => row.taskId = task) ↔
      ∃ record ∈ db.listFileRecords, row = recordRow coding task record := by
  refine ⟨fun hrow => ?_, fun hrow => ?_⟩
  · obtain ⟨hmem, hselects⟩ := List.mem_filter.mp hrow
    have htask : row.taskId = task := of_decide_eq_true hselects
    have hlookup := h.records row.relativePath
    rw [hvalid.find?_eq sameKey_comm hmem (decide_eq_true ⟨htask, rfl⟩) fun other hkey => ?_]
      at hlookup
    · obtain ⟨record, hrecord, heq⟩ := Option.map_eq_some_iff.mp hlookup.symm
      exact ⟨record, Database.mem_listFileRecords.mpr ⟨_, hrecord⟩, heq.symm⟩
    · obtain ⟨hothertask, hpath⟩ := of_decide_eq_true hkey
      exact decide_eq_true ⟨hothertask.trans htask.symm, hpath⟩
  · obtain ⟨record, hrecord, rfl⟩ := hrow
    obtain ⟨path, hfind⟩ := Database.mem_listFileRecords.mp hrecord
    have hlookup := h.records path
    rw [hfind] at hlookup
    exact List.mem_filter.mpr ⟨List.mem_of_find?_eq_some hlookup, decide_eq_true rfl⟩

/-- A record is under its path. -/
theorem Shows.relativePath (h : Shows coding task tables db) {path : Path}
    {record : VeritasSync.FileRecord H} (hfind : db.records.find path = some record) :
    record.relativePath = path := by
  have hlookup := h.records path
  rw [hfind, Option.map_some] at hlookup
  have hfound := List.find?_some hlookup
  exact (of_decide_eq_true hfound).2

theorem findFileRecord_eq (h : Shows coding task tables db) (hplain : Plain task db) {path : Path}
    (hpath : 0 ∉ path) : findFileRecord task path tables =
      (db.findFileRecord path).map (Option.map (codedRecord coding task)) := by
  rw [findFileRecord, Database.findFileRecord]
  cases Database.validateRelativePath path with
  | error e => rfl
  | ok u =>
    simp only [boundText_of_notMem h.named.2, boundText_of_notMem hpath, h.records]
    cases hfind : db.records.find path with
    | none => rfl
    | some record =>
      have hread : readFileRecord task record.relativePath (recordRow coding task record) =
        .ok (codedRecord coding task record) :=
        readFileRecord_row (hplain.records path record hfind)
      rw [h.relativePath hfind] at hread
      show (some <$> readFileRecord task path _ : Except Error _) = _
      rw [hread]
      rfl

theorem listFileRecords_eq (h : Shows coding task tables db) (hplain : Plain task db)
    (hvalid : Valid schema tables) : listFileRecords task tables =
      .ok (db.listFileRecords.map (codedRecord coding task)) := by
  have hrows : orderBy FileRecordRow.relativePath
      ((tables .fileRecords).filter fun row => row.taskId = task) =
      db.listFileRecords.map (recordRow coding task) := by
    have hkeys : ((tables .fileRecords).filter fun row => row.taskId = task).Pairwise
        fun a b => a.relativePath ≠ b.relativePath :=
      hvalid.pairwise_ne fun a b ha hb hpath =>
        decide_eq_true ⟨(of_decide_eq_true ha).trans (of_decide_eq_true hb).symm, hpath⟩
    refine orderBy_eq hkeys ?_ fun row => ?_
    · refine List.pairwise_map.mpr (List.pairwise_map.mpr ?_)
      refine db.records.sorted.imp_of_mem fun {a b} ha hb hlt => ?_
      show a.2.relativePath < b.2.relativePath
      rw [h.relativePath (OrdMap.find_eq_some_iff.mpr ha),
        h.relativePath (OrdMap.find_eq_some_iff.mpr hb)]
      exact hlt
    · rw [h.mem_records hvalid, List.mem_map]
      simp only [eq_comm]
  rw [listFileRecords, if_neg h.named.1, boundText_of_notMem h.named.2, hrows, List.mapM_map]
  refine mapM_ok fun record hrecord => ?_
  obtain ⟨path, hfind⟩ := Database.mem_listFileRecords.mp hrecord
  have hfits := hplain.records path record hfind
  have hpath : boundText (recordRow coding task record).relativePath = record.relativePath :=
    boundText_of_notMem hfits.2.1
  rw [Function.comp_apply, hpath]
  exact readFileRecord_row hfits

/-! ## Lineage -/

def codedLineage (task : Bytes) (lineage : VeritasSync.VersionLineage) : VersionLineage :=
  ⟨task, lineage.versionId, lineage.parentVersionId⟩

theorem findVersionLineage_eq (h : Shows coding task tables db) {versionId : VersionId}
    (hversion : 0 ∉ versionId) : findVersionLineage task versionId tables =
      (db.findVersionLineage versionId).map (Option.map (codedLineage task)) := by
  rw [findVersionLineage, Database.findVersionLineage]
  by_cases hempty : versionId = []
  · rw [if_pos (.inr hempty), if_pos hempty]
    rfl
  rw [if_neg (not_or.mpr ⟨h.named.1, hempty⟩), if_neg hempty, boundText_of_notMem h.named.2,
    boundText_of_notMem hversion, ← h.lineage]
  cases (tables .versionLineage).find? fun row => row.taskId = task ∧ row.versionId = versionId <;>
    rfl

theorem Shows.mem_lineage (h : Shows coding task tables db) (hvalid : Valid schema tables)
    {row : LineageRow} :
    row ∈ (tables .versionLineage).filter (fun row => row.taskId = task) ↔
      ∃ lineage ∈ db.listVersionLineage, row =
        ⟨task, lineage.versionId, lineage.parentVersionId⟩ := by
  have hmem : ∀ lineage, lineage ∈ db.listVersionLineage ↔
      db.lineage.find lineage.versionId = some lineage.parentVersionId := by
    intro lineage
    rw [Database.listVersionLineage, OrdMap.find_eq_some_iff, List.mem_map]
    refine ⟨fun hrow => ?_, fun hentry => ⟨_, hentry, rfl⟩⟩
    obtain ⟨entry, hentry, rfl⟩ := hrow
    exact hentry
  refine ⟨fun hrow => ?_, fun hrow => ?_⟩
  · obtain ⟨hstored, hselects⟩ := List.mem_filter.mp hrow
    have htask : row.taskId = task := of_decide_eq_true hselects
    have hlookup := h.lineage row.versionId
    rw [hvalid.find?_eq sameKey_comm hstored (decide_eq_true ⟨htask, rfl⟩) fun other hkey => ?_]
      at hlookup
    · refine ⟨⟨row.versionId, row.parentVersionId⟩, (hmem _).mpr hlookup.symm, ?_⟩
      rw [← htask]
    · obtain ⟨hothertask, hversion⟩ := of_decide_eq_true hkey
      exact decide_eq_true ⟨hothertask.trans htask.symm, hversion⟩
  · obtain ⟨lineage, hlineage, rfl⟩ := hrow
    have hlookup := h.lineage lineage.versionId
    rw [(hmem lineage).mp hlineage] at hlookup
    obtain ⟨row, hfind, hparent⟩ := Option.map_eq_some_iff.mp hlookup
    have hfound := List.find?_some hfind
    obtain ⟨htask, hversion⟩ := of_decide_eq_true hfound
    have hrow : row = ⟨task, lineage.versionId, lineage.parentVersionId⟩ := by
      rw [← htask, ← hversion, ← hparent]
    rw [← hrow]
    exact List.mem_filter.mpr ⟨List.mem_of_find?_eq_some hfind, decide_eq_true htask⟩

theorem listVersionLineage_eq (h : Shows coding task tables db) (hplain : Plain task db)
    (hvalid : Valid schema tables) : listVersionLineage task tables =
      .ok (db.listVersionLineage.map (codedLineage task)) := by
  have hrows : orderBy LineageRow.versionId
      ((tables .versionLineage).filter fun row => row.taskId = task) =
      db.listVersionLineage.map fun lineage =>
        ⟨task, lineage.versionId, lineage.parentVersionId⟩ := by
    have hkeys : ((tables .versionLineage).filter fun row => row.taskId = task).Pairwise
        fun a b => a.versionId ≠ b.versionId :=
      hvalid.pairwise_ne fun a b ha hb hversion =>
        decide_eq_true ⟨(of_decide_eq_true ha).trans (of_decide_eq_true hb).symm, hversion⟩
    refine orderBy_eq hkeys ?_ fun row => ?_
    · exact List.pairwise_map.mpr (List.pairwise_map.mpr db.lineage.sorted)
    · rw [h.mem_lineage hvalid, List.mem_map]
      simp only [eq_comm]
  rw [listVersionLineage, if_neg h.named.1, boundText_of_notMem h.named.2, hrows, List.map_map]
  refine congrArg Except.ok (List.map_congr_left fun lineage hlineage => ?_)
  obtain ⟨entry, hentry, rfl⟩ := List.mem_map.mp hlineage
  obtain ⟨⟨hversion, hparent⟩, -⟩ :=
    hplain.lineage entry.1 entry.2 (OrdMap.find_eq_some_iff.mpr hentry)
  rw [Function.comp_apply, codedLineage]
  dsimp only
  rw [boundText_of_notMem hversion]
  cases hp : entry.2 with
  | none => rfl
  | some parent => rw [Option.map_some, boundText_of_notMem (hparent parent hp)]

theorem isVersionAncestor_congr {table table' : LineageTable} (hrows : table.rows = table'.rows)
    (taskId ancestor descendant : Bytes) :
    table.isVersionAncestor taskId ancestor descendant =
      table'.isVersionAncestor taskId ancestor descendant := by
  have hwalk : ∀ depth current, table.ancestryWalk taskId ancestor depth current =
      table'.ancestryWalk taskId ancestor depth current := by
    intro depth
    induction depth with
    | zero => exact fun _ => rfl
    | succ depth ih =>
      intro current
      simp only [LineageTable.ancestryWalk, LineageTable.findVersionLineage, LineageTable.select,
        hrows, ih]
  rw [LineageTable.isVersionAncestor, LineageTable.isVersionAncestor, hwalk]

theorem isVersionAncestor_eq (h : Shows coding task tables db) (hplain : Plain task db)
    {ancestor descendant : VersionId} (hzero : 0 ∉ descendant) :
    isVersionAncestor task ancestor descendant tables =
      db.isVersionAncestor ancestor descendant := by
  have htask : boundText task = task := boundText_of_notMem h.named.2
  have hshows : LineageTable.Shows ⟨[task], tables .versionLineage⟩ task db := by
    refine ⟨⟨h.named.1, by rw [htask]; exact List.mem_singleton_self task⟩,
      fun versionId hversion => ?_, fun versionId parent hfind => ?_⟩
    · rw [LineageTable.select, htask, boundText_of_notMem hversion]
      exact h.lineage versionId
    · obtain ⟨⟨-, hparent⟩, hne⟩ := hplain.lineage versionId _ hfind
      exact ⟨fun hempty => hne (congrArg some hempty), hparent parent rfl⟩
  rw [isVersionAncestor, ← LineageTable.isVersionAncestor_eq hshows hzero]
  refine isVersionAncestor_congr ?_ task ancestor descendant
  rfl

/-! ## Conflicts and policies -/

theorem listConflicts_eq (h : Shows coding task tables db) (hplain : Plain task db) :
    listConflicts task tables = .ok ((orderBy (fun conflict =>
      conflictKey conflict.createdAtMs conflict.conflictId) db.conflicts).map
        (codedConflict task)) := by
  rw [listConflicts, if_neg h.named.1, boundText_of_notMem h.named.2, h.conflicts, orderBy_map,
    List.map_map]
  refine congrArg Except.ok (List.map_congr_left fun conflict hconflict => ?_)
  obtain ⟨hid, horiginal, hwinning, hpath, hstate⟩ :=
    hplain.conflicts conflict (mem_orderBy.mp hconflict)
  simp only [Function.comp_apply, conflictRow, Option.getD_some, codedConflict,
    boundText_of_notMem hid, boundText_of_notMem horiginal, boundText_of_notMem hwinning,
    boundText_of_notMem hpath, boundText_of_notMem hstate]

theorem findPendingIgnorePolicy_eq (h : Shows coding task tables db) (hplain : Plain task db) :
    findPendingIgnorePolicy task tables =
      db.findPendingIgnorePolicy.map (codedPolicy coding task) := by
  rw [findPendingIgnorePolicy, boundText_of_notMem h.named.2, h.pending,
    Database.findPendingIgnorePolicy, Option.map_map]
  refine Option.map_congr fun policy hpolicy => ?_
  obtain ⟨hproposal, horigin, hrules, hsource⟩ := hplain.pending policy hpolicy
  simp only [Function.comp_apply, policyRow, codedPolicy, boundText_of_notMem hproposal,
    boundText_of_notMem horigin, boundText_of_notMem (coding.text_plain _),
    boundText_of_notMem hrules, boundText_of_notMem hsource.1, policyStateName_bound]

/-- What is read of a revision: its rules up to the first zero byte. -/
def codedRevision (coding : Coding H) (task : Bytes)
    (revision : VeritasSync.IgnorePolicyRevision H) : IgnorePolicyRevision :=
  ⟨task, UInt64.ofNat revision.revision, boundText revision.content,
    coding.text revision.contentHash, sourceName revision.source, revision.createdAtMs⟩

theorem unsigned_natCast (n : Nat) : unsigned n = UInt64.ofNat n := by
  rw [unsigned, BitVec.ofInt_natCast]
  rfl

theorem readRevision_row {revision : VeritasSync.IgnorePolicyRevision H}
    (hproper : Proper revision.source) :
    readRevision task (revisionRow coding task revision) = codedRevision coding task revision := by
  simp only [readRevision, revisionRow, codedRevision, unsigned_natCast,
    boundText_of_notMem (coding.text_plain _), boundText_of_notMem hproper.1]

theorem findSome?_of_unique {α β : Type} {l : List α} {f : α → Option β} {a : α} {b : β}
    (ha : a ∈ l) (hfa : f a = some b) (hunique : ∀ a ∈ l, ∀ c, f a = some c → c = b) :
    l.findSome? f = some b := by
  cases hfind : l.findSome? f with
  | none =>
    have hnone := List.findSome?_eq_none_iff.mp hfind a ha
    exact absurd (hfa.symm.trans hnone) (Option.some_ne_none b)
  | some c =>
    obtain ⟨other, hother, hc⟩ := List.exists_of_findSome?_eq_some hfind
    rw [hunique other hother c hc]

/-- The rows of the task in `ignore_policy_revisions`. -/
theorem Shows.mem_revisions (h : Shows coding task tables db) {row : IgnorePolicyRevisionRow} :
    row ∈ tables .ignorePolicyRevisions ∧ row.taskId = task ↔
      ∃ revision ∈ db.policyRevisions, revisionRow coding task revision = row := by
  rw [← List.mem_map, ← h.revisions, List.mem_filter, decide_eq_true_iff]

/-- The state refers to the newest row. -/
theorem Consistent.stateRow (h : Consistent tables) {state : IgnorePolicyStateRow}
    (hstate : state ∈ tables .ignorePolicyState) (htask : state.taskId = some task) :
    ∃ row ∈ tables .ignorePolicyRevisions, row.taskId = task ∧ row.revision = state.revision ∧
      ∀ other ∈ tables .ignorePolicyRevisions, other.taskId = task →
        other.revision ≤ row.revision := by
  have hbound : toRevisions.bound state = true := by
    show state.taskId.isSome = true
    rw [htask]
    rfl
  obtain ⟨row, hrow, hrefers⟩ := h.valid.foreignKeys .ignorePolicyState toRevisions
    (List.mem_cons_of_mem _ (List.mem_singleton_self _)) state hstate hbound
  obtain ⟨hrowtask, hrevision⟩ := of_decide_eq_true hrefers
  refine ⟨row, hrow, Option.some.inj (hrowtask.symm.trans htask), hrevision.symm,
    fun other hother hothertask => ?_⟩
  rw [← hrevision]
  exact h.newest state hstate other hother (htask.trans (congrArg some hothertask.symm))

/-- The state refers to the revision that was recorded last. -/
theorem Shows.stateRow (h : Shows coding task tables db) (hconsistent : Consistent tables)
    {last : VeritasSync.IgnorePolicyRevision H} (hlast : db.policyRevisions.getLast? = some last)
    {state : IgnorePolicyStateRow} (hstate : state ∈ tables .ignorePolicyState)
    (htask : state.taskId = some task) : state.revision = last.revision := by
  obtain ⟨before, hbefore⟩ := List.getLast?_eq_some_iff.mp hlast
  have hnumbered := h.numbered
  rw [hbefore] at hnumbered
  have hle : ∀ revision ∈ db.policyRevisions, revision.revision ≤ last.revision := by
    rw [hbefore]
    intro revision hrevision
    rcases List.mem_append.mp hrevision with hold | hnew
    · exact le_of_lt ((List.pairwise_append.mp hnumbered).2.2 revision hold last
        (List.mem_singleton_self last))
    · rw [List.mem_singleton.mp hnew]
  have hmem : last ∈ db.policyRevisions := by
    rw [hbefore]
    exact List.mem_append_right _ (List.mem_singleton_self last)
  obtain ⟨row, hrow, hrowtask, hrevision, hnewest⟩ := hconsistent.stateRow hstate htask
  obtain ⟨revision, hrecorded, rfl⟩ := h.mem_revisions.mp ⟨hrow, hrowtask⟩
  obtain ⟨hlastrow, hlasttask⟩ := h.mem_revisions.mpr ⟨last, hmem, rfl⟩
  rw [← hrevision]
  exact le_antisymm (Int.ofNat_le.mpr (hle revision hrecorded)) (hnewest _ hlastrow hlasttask)

/-- The current revision is the one that was recorded last. -/
theorem currentIgnorePolicyRevision_eq (h : Shows coding task tables db) (hplain : Plain task db)
    (hconsistent : Consistent tables) : currentIgnorePolicyRevision task tables =
      .ok (db.currentIgnorePolicyRevision.map (codedRevision coding task)) := by
  rw [currentIgnorePolicyRevision, if_neg h.named.1, boundText_of_notMem h.named.2,
    Database.currentIgnorePolicyRevision]
  refine congrArg Except.ok ?_
  cases hlast : db.policyRevisions.getLast? with
  | none =>
    refine Option.map_eq_none_iff.mpr (List.findSome?_eq_none_iff.mpr fun state hstate => ?_)
    split
    · rename_i htask
      obtain ⟨row, hrow, hrowtask, -, -⟩ := hconsistent.stateRow hstate htask
      obtain ⟨revision, hrevision, -⟩ := h.mem_revisions.mp ⟨hrow, hrowtask⟩
      rw [List.getLast?_eq_none_iff.mp hlast] at hrevision
      cases hrevision
    · rfl
  | some last =>
    have hmem : last ∈ db.policyRevisions := List.mem_of_getLast? hlast
    obtain ⟨hrow, hrowtask⟩ := h.mem_revisions.mpr ⟨last, hmem, rfl⟩
    have hjoined : ∀ state ∈ tables .ignorePolicyState, state.taskId = some task →
        ((tables .ignorePolicyRevisions).find? fun row =>
          some row.taskId = state.taskId ∧ row.revision = state.revision) =
            some (revisionRow coding task last) := by
      intro state hstate htask
      have hnumber := h.stateRow hconsistent hlast hstate htask
      refine hconsistent.valid.find?_eq sameKey_comm hrow
        (decide_eq_true ⟨htask.symm, hnumber.symm⟩) fun other hkey => ?_
      obtain ⟨hothertask, hrevision⟩ := of_decide_eq_true hkey
      exact decide_eq_true ⟨Option.some.inj (hothertask.trans htask), hrevision.trans hnumber⟩
    obtain ⟨state, hstate, htask⟩ := hconsistent.current _ hrow
    rw [findSome?_of_unique hstate ((if_pos htask).trans (hjoined state hstate htask)),
      Option.map_some, readRevision_row (hplain.revisions last hmem)]
    · rfl
    · intro other hother row hother'
      split at hother'
      · rename_i hothertask
        exact Option.some.inj (hother'.symm.trans (hjoined other hother hothertask))
      · cases hother'

theorem listIgnorePolicyRevisions_eq (h : Shows coding task tables db) (hplain : Plain task db)
    {limit : Nat} (hpos : limit ≠ 0) (hle : limit ≤ 200) :
    listIgnorePolicyRevisions task limit tables =
      .ok ((db.policyRevisions.reverse.take limit).map (codedRevision coding task)) := by
  have hrows : orderBy IgnorePolicyRevisionRow.revision
      ((tables .ignorePolicyRevisions).filter fun row => row.taskId = task) =
      db.policyRevisions.map (revisionRow coding task) := by
    rw [h.revisions]
    refine List.Pairwise.insertionSort_eq (List.pairwise_map.mpr (h.numbered.imp ?_))
    exact fun hlt => Int.ofNat_le.mpr (le_of_lt hlt)
  rw [listIgnorePolicyRevisions, if_neg (by simp [h.named.1, hpos, hle]),
    boundText_of_notMem h.named.2, hrows, ← List.map_reverse, ← List.map_take, List.map_map]
  refine congrArg Except.ok (List.map_congr_left fun revision hrevision => ?_)
  have hmem := List.mem_reverse.mp (List.mem_of_mem_take hrevision)
  exact readRevision_row (hplain.revisions revision hmem)

/-! ## Transfers -/

theorem directionName_inj {a b : TransferDirection} :
    directionName a = directionName b ↔ a = b := by
  cases a <;> cases b <;> decide

theorem stateName_inj {a b : TransferState} : stateName a = stateName b ↔ a = b := by
  cases a <;> cases b <;> decide

theorem readTransfer_row {row : TransferRow} {t : VeritasSync.TransferRecord H}
    (hrow : withoutError row = transferRow coding task t) (hpath : 0 ∉ t.relativePath) :
    readTransfer task t.peerDeviceId row = .ok (codedTransfer coding task t) := by
  simp only [withoutError, transferRow, TransferRow.mk.injEq] at hrow
  have hid : (row.transferId.getD []).length = 16 := by
    rw [hrow.1]
    exact (transferKey t.transferId).property
  rw [readTransfer, dif_pos hid]
  simp only [hrow, boundText_of_notMem hpath, (directionName_mem _).2, (stateName_mem _).2,
    Option.getD_some, codedTransfer, Subtype.coe_eta]

/-- Newer rows are newer transfers. -/
theorem foldl_newest (rows : List TransferRow) :
    ∀ (transfers : List (VeritasSync.TransferRecord H)) (row : TransferRow)
      (t : VeritasSync.TransferRecord H), withoutError row = transferRow coding task t →
      rows.map withoutError = transfers.map (transferRow coding task) →
        withoutError (rows.foldl (fun a b => if a.createdAtMs < b.createdAtMs then b else a) row) =
          transferRow coding task (transfers.foldl Database.laterTransfer t) := by
  induction rows with
  | nil =>
    intro transfers row t hrow heq
    rw [List.map_nil] at heq
    rw [List.map_eq_nil_iff.mp heq.symm]
    exact hrow
  | cons next rest ih =>
    intro transfers row t hrow heq
    cases transfers with
    | nil => cases heq
    | cons t' ts =>
      obtain ⟨hnext, hrest⟩ := List.cons.inj heq
      have hcreated : row.createdAtMs = t.createdAtMs := congrArg TransferRow.createdAtMs hrow
      have hcreated' : next.createdAtMs = t'.createdAtMs := congrArg TransferRow.createdAtMs hnext
      refine ih ts _ _ ?_ hrest
      dsimp only
      rw [Database.laterTransfer, hcreated, hcreated']
      split
      · exact hnext
      · exact hrow

theorem foldl_laterTransfer_mem (rest : List (VeritasSync.TransferRecord H)) :
    ∀ t, rest.foldl Database.laterTransfer t ∈ t :: rest := by
  induction rest with
  | nil => exact List.mem_singleton_self
  | cons next rest ih =>
    intro t
    rcases List.mem_cons.mp (ih (Database.laterTransfer t next)) with heq | hrest
    · rw [List.foldl_cons, heq, Database.laterTransfer]
      split
      · exact List.mem_cons_of_mem t List.mem_cons_self
      · exact List.mem_cons_self
    · exact List.mem_cons_of_mem t (List.mem_cons_of_mem next hrest)

/-- The rows that the lookup selects are those of the transfers that the node selects. -/
theorem Shows.activeDownloads [DecidableEq H] (h : Shows coding task tables db)
    {peerDeviceId : DeviceId} {relativePath : Path} {fileHash : H} (hpeer : 0 ∉ peerDeviceId)
    (hpath : 0 ∉ relativePath) :
    ((tables .transfers).filter fun row =>
      row.taskId = boundText task ∧ row.peerDeviceId = boundText peerDeviceId ∧
        row.relativePath = boundText relativePath ∧ row.fileHash = coding.blob fileHash ∧
        row.direction = ascii "download" ∧ row.state = ascii "active").map withoutError =
      (Database.activeDownloads peerDeviceId relativePath fileHash db.transfers).map
        (transferRow coding task) := by
  set selects := fun row : TransferRow => decide (row.peerDeviceId = peerDeviceId ∧
    row.relativePath = relativePath ∧ row.fileHash = coding.blob fileHash ∧
    row.direction = ascii "download" ∧ row.state = ascii "active") with hselects
  have hrows : ((tables .transfers).filter fun row =>
      row.taskId = boundText task ∧ row.peerDeviceId = boundText peerDeviceId ∧
        row.relativePath = boundText relativePath ∧ row.fileHash = coding.blob fileHash ∧
        row.direction = ascii "download" ∧ row.state = ascii "active") =
      ((tables .transfers).filter fun row => row.taskId = task).filter selects := by
    rw [List.filter_filter, boundText_of_notMem h.named.2, boundText_of_notMem hpeer,
      boundText_of_notMem hpath]
    refine List.filter_congr fun row _ => ?_
    rw [hselects, Bool.decide_and, Bool.and_comm]
  have hactive : Database.activeDownloads peerDeviceId relativePath fileHash db.transfers =
      db.transfers.filter (selects ∘ transferRow coding task) := by
    refine List.filter_congr fun t _ => decide_eq_decide.mpr ?_
    have hdirection : directionName t.direction = ascii "download" ↔ t.direction = .download :=
      directionName_inj (b := .download)
    have hstate : stateName t.state = ascii "active" ↔ t.state = .active :=
      stateName_inj (b := .active)
    simp only [transferRow, coding.blob_injective.eq_iff, hdirection, hstate]
  calc _ = (((tables .transfers).filter fun row => row.taskId = task).filter selects).map
        withoutError := by rw [hrows]
    _ = (((tables .transfers).filter fun row => row.taskId = task).map withoutError).filter
        selects := by
      rw [List.filter_map]
      rfl
    _ = (db.transfers.map (transferRow coding task)).filter selects := by rw [h.transfers]
    _ = _ := by rw [List.filter_map, hactive]

theorem findActiveDownloadTransfer_eq [DecidableEq H] (h : Shows coding task tables db)
    (hplain : Plain task db) {peerDeviceId : DeviceId} {relativePath : Path} {fileHash : H}
    (hpeer : 0 ∉ peerDeviceId) (hpath : 0 ∉ relativePath) :
    findActiveDownloadTransfer task peerDeviceId relativePath (coding.blob fileHash) tables =
      (db.findActiveDownloadTransfer peerDeviceId relativePath fileHash).map
        (Option.map (codedTransfer coding task)) := by
  rw [findActiveDownloadTransfer, Database.findActiveDownloadTransfer]
  by_cases hempty : peerDeviceId = []
  · rw [if_pos (.inr (.inl hempty)), if_pos hempty]
    rfl
  rw [if_neg (by simp [h.named.1, hempty, coding.blob_length]), if_neg hempty]
  cases Database.validateRelativePath relativePath with
  | error e => rfl
  | ok u =>
    set active := Database.activeDownloads peerDeviceId relativePath fileHash db.transfers
      with hactive
    set rows := (tables .transfers).filter fun row =>
      row.taskId = boundText task ∧ row.peerDeviceId = boundText peerDeviceId ∧
        row.relativePath = boundText relativePath ∧ row.fileHash = coding.blob fileHash ∧
        row.direction = ascii "download" ∧ row.state = ascii "active" with hrows
    have hselected : rows.map withoutError = active.map (transferRow coding task) :=
      h.activeDownloads hpeer hpath
    show (match newestTransfer rows with
      | none => pure none
      | some row => some <$> readTransfer task peerDeviceId row : Except Error _) = _
    cases hcases : active with
    | nil =>
      rw [hcases, List.map_nil, List.map_eq_nil_iff] at hselected
      rw [hselected]
      rfl
    | cons t rest =>
      rw [hcases] at hselected
      obtain ⟨row, others, hcons, hrow, hothers⟩ := List.map_eq_cons_iff.mp hselected
      have hnewest := foldl_newest others rest row t hrow hothers
      have hmem : rest.foldl Database.laterTransfer t ∈ active := by
        rw [hcases]
        exact foldl_laterTransfer_mem rest t
      obtain ⟨hstored, hselects⟩ := List.mem_filter.mp hmem
      have hread := readTransfer_row hnewest (hplain.transfers _ hstored).2
      rw [(of_decide_eq_true hselects).1] at hread
      rw [hcons]
      show (some <$> readTransfer task peerDeviceId _ : Except Error _) = _
      rw [hread]
      rfl

theorem transferId_of_findTransfer {transferId : VeritasSync.TransferId}
    {t : VeritasSync.TransferRecord H} (h : db.findTransfer transferId = some t) :
    t.transferId = transferId := by
  have hfound := List.find?_some h
  exact of_decide_eq_true hfound

/-- The transfer that a row belongs to. -/
theorem Shows.findTransfer (h : Shows coding task tables db) {transferId : VeritasSync.TransferId}
    (hid : transferId < 2 ^ 128) (hown : Own tables task transferId) {row : TransferRow}
    (hrow : row ∈ tables .transfers)
    (hkey : row.transferId = some (transferKey transferId).val) :
    ∃ t, db.findTransfer transferId = some t := by
  obtain ⟨t, ht, hsame⟩ := exists_record h.transfers hrow (hown row hrow hkey)
  have hkeys : transferKey t.transferId = transferKey transferId :=
    Subtype.ext (Option.some.inj (hsame.symm.trans hkey))
  exact Option.isSome_iff_exists.mp (List.find?_isSome.mpr
    ⟨t, ht, decide_eq_true ((transferKey_inj (h.identifiers t ht) hid).mp hkeys)⟩)

theorem completedTransferChunks_eq (h : Shows coding task tables db)
    (hvalid : Valid schema tables) {transferId : VeritasSync.TransferId}
    (hid : transferId < 2 ^ 128) (hown : Own tables task transferId) :
    completedTransferChunks (transferKey transferId) tables =
      (db.completedTransferChunks transferId).map UInt64.ofNat := by
  set rows := (tables .transferChunks).filter fun row =>
    row.transferId = (transferKey transferId).val ∧ row.completed = true with hrows
  have hmem : ∀ index, index ∈ rows.map TransferChunkRow.chunkIndex ↔
      Marked tables transferId index := by
    intro index
    rw [List.mem_map]
    constructor
    · intro hindex
      obtain ⟨row, hrow, rfl⟩ := hindex
      obtain ⟨hstored, hselects⟩ := List.mem_filter.mp hrow
      obtain ⟨hkey, hcompleted⟩ := of_decide_eq_true hselects
      exact ⟨row, hstored, hkey, rfl, hcompleted⟩
    · intro hmarked
      obtain ⟨row, hstored, hkey, hindex, hcompleted⟩ := hmarked
      exact ⟨row, List.mem_filter.mpr ⟨hstored, decide_eq_true ⟨hkey, hcompleted⟩⟩, hindex⟩
  have hkeys : (rows.map TransferChunkRow.chunkIndex).Pairwise fun a b => id a ≠ id b := by
    have hne : ((tables .transferChunks).filter fun row =>
        row.transferId = (transferKey transferId).val ∧ row.completed = true).Pairwise
        fun a b => a.chunkIndex ≠ b.chunkIndex :=
      hvalid.pairwise_ne fun a b ha hb hindex => decide_eq_true
        ⟨(of_decide_eq_true ha).1.trans (of_decide_eq_true hb).1.symm, hindex⟩
    exact List.pairwise_map.mpr hne
  rw [completedTransferChunks, Database.completedTransferChunks]
  cases hfind : db.findTransfer transferId with
  | none =>
    -- a mark refers to its transfer, so without a transfer there are no marks
    have hnone : rows.map TransferChunkRow.chunkIndex = [] := by
      refine List.eq_nil_iff_forall_not_mem.mpr fun index hindex => ?_
      obtain ⟨chunk, hchunk, hkey, -⟩ := (hmem index).mp hindex
      obtain ⟨row, hrow, hrefers⟩ := hvalid.foreignKeys .transferChunks toTransfers
        (List.mem_singleton_self _) chunk hchunk rfl
      have hparent : row.transferId = some chunk.transferId := of_decide_eq_true hrefers
      obtain ⟨t, ht⟩ := h.findTransfer hid hown hrow (hparent.trans (congrArg some hkey))
      rw [hfind] at ht
      cases ht
    rw [← hrows, hnone]
    rfl
  | some t =>
    have ht : t ∈ db.transfers := List.mem_of_find?_eq_some hfind
    have htid : t.transferId = transferId := transferId_of_findTransfer hfind
    have hsorted : orderBy id (rows.map TransferChunkRow.chunkIndex) =
        t.completedChunks.map (Nat.cast : Nat → Int) := by
      refine orderBy_eq hkeys (List.pairwise_map.mpr ((h.indexed t ht).imp Int.ofNat_lt.mpr))
        fun index => ?_
      rw [hmem, ← htid, h.chunks t ht, List.mem_map]
    rw [← hrows, hsorted, List.map_map]
    exact List.map_congr_left fun n _ => unsigned_natCast n

theorem findTransferState_eq (h : Shows coding task tables db) (hvalid : Valid schema tables)
    {transferId : VeritasSync.TransferId} (hid : transferId < 2 ^ 128)
    (hown : Own tables task transferId) :
    findTransferState (transferKey transferId) tables =
      (db.findTransfer transferId).map fun t => stateName t.state := by
  rw [findTransferState]
  cases hfind : (tables .transfers).find? fun row =>
    row.transferId = some (transferKey transferId).val with
  | none =>
    cases hnode : db.findTransfer transferId with
    | none => rfl
    | some t =>
      obtain ⟨row, hrow, hkey, -⟩ := h.exists_transfer (List.mem_of_find?_eq_some hnode)
      have htid : t.transferId = transferId := transferId_of_findTransfer hnode
      rw [htid] at hkey
      exact absurd (decide_eq_true hkey) (List.find?_eq_none.mp hfind row hrow)
  | some row =>
    have hrow := List.mem_of_find?_eq_some hfind
    have hfound := List.find?_some hfind
    have hkey : row.transferId = some (transferKey transferId).val := of_decide_eq_true hfound
    obtain ⟨t, ht⟩ := h.findTransfer hid hown hrow hkey
    have htid : t.transferId = transferId := transferId_of_findTransfer ht
    -- the row of the transfer is the one that was found
    have hown' : transferRow coding task t ∈
        ((tables .transfers).filter fun row => row.taskId = task).map withoutError := by
      rw [h.transfers]
      exact List.mem_map_of_mem (List.mem_of_find?_eq_some ht)
    obtain ⟨other, hother, heq⟩ := List.mem_map.mp hown'
    have hotherKey : other.transferId = some (transferKey transferId).val := by
      rw [← htid]
      exact congrArg TransferRow.transferId heq
    obtain rfl : row = other := hvalid.eq_of_sameKey sameKey_comm hrow
      (List.mem_of_mem_filter hother) (sameValue_iff.mpr ⟨_, hkey, hotherKey⟩)
    have hstate : row.state = stateName t.state := congrArg TransferRow.state heq
    rw [ht, Option.map_some, Option.map_some, hstate, (stateName_mem t.state).2]

/-! ## Every read -/

/-- **What a node reads** is what its `Database` has. -/
structure Reads [DecidableEq H] (coding : Coding H) (task : Bytes) (tables : Tables)
    (db : Database H) : Prop where
  record : ∀ path, 0 ∉ path → findFileRecord task path tables =
    (db.findFileRecord path).map (Option.map (codedRecord coding task))
  records : listFileRecords task tables =
    .ok (db.listFileRecords.map (codedRecord coding task))
  version : ∀ versionId, 0 ∉ versionId → findVersionLineage task versionId tables =
    (db.findVersionLineage versionId).map (Option.map (codedLineage task))
  lineage : listVersionLineage task tables = .ok (db.listVersionLineage.map (codedLineage task))
  ancestor : ∀ ancestor descendant, 0 ∉ descendant →
    isVersionAncestor task ancestor descendant tables = db.isVersionAncestor ancestor descendant
  clock : currentClock task tables = db.logicalClock
  conflicts : listConflicts task tables = .ok ((orderBy (fun conflict =>
    conflictKey conflict.createdAtMs conflict.conflictId) db.conflicts).map (codedConflict task))
  pending : findPendingIgnorePolicy task tables =
    db.findPendingIgnorePolicy.map (codedPolicy coding task)
  current : currentIgnorePolicyRevision task tables =
    .ok (db.currentIgnorePolicyRevision.map (codedRevision coding task))
  history : ∀ limit, limit ≠ 0 → limit ≤ 200 → listIgnorePolicyRevisions task limit tables =
    .ok ((db.policyRevisions.reverse.take limit).map (codedRevision coding task))
  active : ∀ peerDeviceId relativePath fileHash, 0 ∉ peerDeviceId → 0 ∉ relativePath →
    findActiveDownloadTransfer task peerDeviceId relativePath (coding.blob fileHash) tables =
      (db.findActiveDownloadTransfer peerDeviceId relativePath fileHash).map
        (Option.map (codedTransfer coding task))
  chunks : ∀ transferId < 2 ^ 128, Own tables task transferId →
    completedTransferChunks (transferKey transferId) tables =
      (db.completedTransferChunks transferId).map UInt64.ofNat
  state : ∀ transferId < 2 ^ 128, Own tables task transferId →
    findTransferState (transferKey transferId) tables =
      (db.findTransfer transferId).map fun t => stateName t.state

theorem Shows.reads [DecidableEq H] (h : Shows coding task tables db) (hplain : Plain task db)
    (hconsistent : Consistent tables) : Reads coding task tables db where
  record _ hpath := findFileRecord_eq h hplain hpath
  records := listFileRecords_eq h hplain hconsistent.valid
  version _ hversion := findVersionLineage_eq h hversion
  lineage := listVersionLineage_eq h hplain hconsistent.valid
  ancestor _ _ hzero := isVersionAncestor_eq h hplain hzero
  clock := h.clock
  conflicts := listConflicts_eq h hplain
  pending := findPendingIgnorePolicy_eq h hplain
  current := currentIgnorePolicyRevision_eq h hplain hconsistent
  history _ hpos hle := listIgnorePolicyRevisions_eq h hplain hpos hle
  active _ _ _ hpeer hpath := findActiveDownloadTransfer_eq h hplain hpeer hpath
  chunks _ hid hown := completedTransferChunks_eq h hconsistent.valid hid hown
  state _ hid hown := findTransferState_eq h hconsistent.valid hid hown

/-! ## A new task -/

/-- The tables of a node. -/
def nodeTables : List TableName :=
  [.fileRecords, .versionLineage, .taskClocks, .conflicts, .transfers, .transferChunks,
    .pendingIgnorePolicies, .ignorePolicyRevisions]

/-- The other tables are of no interest. -/
theorem Shows.of_tables (h : Shows coding task tables db)
    (hsame : ∀ t ∈ nodeTables, tables' t = tables t) : Shows coding task tables' db := by
  refine ⟨h.named, ?_, ?_, ?_, ?_, ?_, h.identifiers, ?_, h.indexed, ?_, ?_, h.numbered⟩
  · rw [hsame .fileRecords (by decide)]
    exact h.records
  · rw [hsame .versionLineage (by decide)]
    exact h.lineage
  · rw [currentClock, hsame .taskClocks (by decide)]
    exact h.clock
  · rw [hsame .conflicts (by decide)]
    exact h.conflicts
  · rw [hsame .transfers (by decide)]
    exact h.transfers
  · simp only [Marked]
    rw [hsame .transferChunks (by decide)]
    exact h.chunks
  · rw [hsame .pendingIgnorePolicies (by decide)]
    exact h.pending
  · rw [hsame .ignorePolicyRevisions (by decide)]
    exact h.revisions

/-- A task without rows. -/
theorem shows_empty (hnamed : task ≠ [] ∧ 0 ∉ task)
    (habsent : ∀ t, ∀ row ∈ tables t, taskColumn t row ≠ some task) :
    Shows coding task tables (Database.empty : Database H) := by
  have hbound : boundText task = task := boundText_of_notMem hnamed.2
  have hfilter : ∀ (t : TableName) (p : Row t → Bool),
      (∀ row, p row = true → taskColumn t row = some task) → (tables t).filter p = [] :=
    fun t p hp => List.filter_eq_nil_iff.mpr fun row hrow hselects =>
      habsent t row hrow (hp row hselects)
  have hfind : ∀ (t : TableName) (p : Row t → Bool),
      (∀ row, p row = true → taskColumn t row = some task) → (tables t).find? p = none :=
    fun t p hp => List.find?_eq_none.mpr fun row hrow hselects =>
      habsent t row hrow (hp row hselects)
  refine ⟨hnamed, fun path => ?_, fun versionId => ?_, ?_, ?_, ?_,
    fun _ ht => absurd ht List.not_mem_nil, fun _ ht => absurd ht List.not_mem_nil,
    fun _ ht => absurd ht List.not_mem_nil, ?_, ?_, List.Pairwise.nil⟩
  · exact hfind .fileRecords _ fun row hrow => congrArg some (of_decide_eq_true hrow).1
  · exact congrArg (Option.map LineageRow.parentVersionId)
      (hfind .versionLineage _ fun row hrow => congrArg some (of_decide_eq_true hrow).1)
  · rw [currentClock, hfind .taskClocks _ fun row hrow => ?_]
    · rfl
    · rw [hbound] at hrow
      exact of_decide_eq_true hrow
  · exact hfilter .conflicts _ fun row hrow => congrArg some (of_decide_eq_true hrow)
  · exact congrArg (List.map withoutError)
      (hfilter .transfers _ fun row hrow => congrArg some (of_decide_eq_true hrow))
  · exact hfind .pendingIgnorePolicies _ fun row hrow => of_decide_eq_true hrow
  · exact hfilter .ignorePolicyRevisions _ fun row hrow => congrArg some (of_decide_eq_true hrow)

/-- **A task that was just created** has no rows.  So a node that starts on it sees the empty
`Database`. -/
theorem shows_createTask (hconsistent : Consistent tables) {createdAtMs : Int}
    {outside : Except Error Unit} {definition : TaskDefinition} {u : Unit}
    (hzero : 0 ∉ definition.taskId)
    (hrun : Call.run (.one (.createTask createdAtMs outside definition)) tables =
      .ok (u, tables')) :
    Shows coding definition.taskId tables' (Database.empty : Database H) := by
  obtain ⟨hvalidate, hwrite⟩ := Statement.run_ok hrun
  have hne : definition.taskId ≠ [] := by
    rw [Statement.validate] at hvalidate
    split at hvalidate
    · cases hvalidate
    · rename_i hvalid
      exact (not_or.mp hvalid).1
  obtain ⟨-, hnew, -, -, rfl⟩ := insertTask_ok hwrite
  have hbefore : Shows coding definition.taskId tables (Database.empty : Database H) := by
    refine shows_empty ⟨hne, hzero⟩ fun t row hrow htask => ?_
    have hbelongs : Belongs tables definition.taskId t row = true := by
      refine (belongs_iff ?_).mpr htask
      rintro rfl
      cases htask
    obtain ⟨p, hp, hid⟩ := task_of_belongs hconsistent.valid.foreignKeys hrow hbelongs
    refine List.any_eq_false.mp hnew p hp (sameValue_iff.mpr ⟨_, rfl, ?_⟩)
    rw [boundText_of_notMem hzero]
    exact hid
  refine hbefore.of_tables fun t ht => ?_
  have htasks : t ≠ .tasks := by
    rintro rfl
    exact absurd ht (by decide)
  have hruntime : t ≠ .taskRuntime := by
    rintro rfl
    exact absurd ht (by decide)
  exact (insertRow_of_ne hruntime).trans (insertRow_of_ne htasks)

/-! ## Calls that a node does not see -/

/-- The function writes no table of a node. -/
def Statement.apart : Statement → Bool
  | .createTask _ _ _ | .updateTaskNetworkState _ _ _ | .setTaskEnabled _ _
  | .updateTaskRuntime _ _ _ _ _ | .configureTaskConnection _ | .upsertTaskMember _
  | .recordEngineEvent _ => true
  | _ => false

/-- The function writes a row of the task that the node reads. -/
def Statement.Seen (db : Tables) (task : Bytes) (s : Statement) : Prop :=
  s.apart = false ∧ s.Touches db task

/-- One of the calls of a transaction does. -/
def SeenBy (task : Bytes) : List Statement → Tables → Prop
  | [], _ => False
  | s :: rest, db => s.Seen db task ∨ ∃ db', s.run db = .ok ((), db') ∧ SeenBy task rest db'

@[inherit_doc Statement.Seen]
def Call.Seen (db : Tables) (task : Bytes) : Call → Prop
  | .one s => s.Seen db task
  | .inTransaction body _ => SeenBy task body db
  | call => call.Touches db task

section Unseen

variable {u : Unit}

theorem Statement.write_of_apart {s : Statement} (hapart : s.apart = true)
    (hwrite : s.write tables = .ok (u, tables')) {t : TableName} (ht : t ∈ nodeTables) :
    tables' t = tables t := by
  have hne : ∀ {table : TableName}, table ∉ nodeTables → t ≠ table :=
    fun htable heq => htable (heq ▸ ht)
  cases s with
  | createTask createdAtMs outside definition =>
    obtain ⟨-, -, -, -, rfl⟩ := insertTask_ok hwrite
    have hruntime : t ≠ .taskRuntime := hne (by decide)
    have htasks : t ≠ .tasks := hne (by decide)
    exact (insertRow_of_ne hruntime).trans (insertRow_of_ne htasks)
  | updateTaskNetworkState taskId networkStatus networkError =>
    obtain ⟨-, -, -, rfl⟩ := updateOne_ok hwrite
    exact updateRows_of_ne (hne (by decide))
  | setTaskEnabled taskId enabled =>
    obtain ⟨-, -, -, rfl⟩ := updateOne_ok hwrite
    exact updateRows_of_ne (hne (by decide))
  | updateTaskRuntime taskId status dirty lastScanAtMs lastError =>
    obtain ⟨-, -, -, rfl⟩ := updateOne_ok hwrite
    exact updateRows_of_ne (hne (by decide))
  | configureTaskConnection connection =>
    obtain ⟨-, rfl⟩ := write_connection_eq hwrite
    exact upsertRow_of_ne (hne (by decide))
  | upsertTaskMember member =>
    obtain ⟨-, rfl⟩ := write_member_eq hwrite
    exact upsertRow_of_ne (hne (by decide))
  | recordEngineEvent event =>
    rw [write] at hwrite
    split at hwrite
    · cases hwrite
    obtain ⟨-, -, -, rfl⟩ := insert_ok hwrite
    exact insertRow_of_ne (hne (by decide))
  | _ => cases hapart

theorem Statement.unseen {s : Statement} (h : Shows coding task tables db)
    (hseen : ¬ s.Seen tables task) (hrun : s.run tables = .ok (u, tables')) :
    Shows coding task tables' db := by
  obtain ⟨-, hwrite⟩ := Statement.run_ok hrun
  cases hapart : s.apart with
  | true => exact h.of_tables fun t ht => Statement.write_of_apart hapart hwrite ht
  | false => exact h.of_sameRows (s.sameRows (fun htouches => hseen ⟨hapart, htouches⟩) hwrite)

theorem Call.unseen (call : Call) (h : Shows coding task tables db)
    (hconsistent : Consistent tables) (hseen : ¬ call.Seen tables task)
    (hrun : call.run tables = .ok (u, tables')) : Shows coding task tables' db := by
  cases call with
  | one s => exact Statement.unseen h hseen hrun
  | inTransaction body thrown =>
    obtain ⟨⟨_, tables₁⟩, hbody, hend⟩ := ok_of_bind hrun
    have hshows : Shows coding task tables₁ db := by
      clear hrun hend
      induction body generalizing tables with
      | nil =>
        cases hbody
        exact h
      | cons s rest ih =>
        obtain ⟨tables₂, hs, hrest⟩ := each_cons_ok hbody
        obtain ⟨hvalidate, hwrite⟩ := Statement.run_ok hs
        exact ih (Statement.unseen h (fun hs' => hseen (.inl hs')) hs)
          (s.consistent hvalidate hconsistent hwrite)
          (fun hrest' => hseen (.inr ⟨tables₂, hs, hrest'⟩)) hrest
    cases thrown with
    | some e => cases hend
    | none =>
      cases hend
      exact hshows
  | deleteTask taskId =>
    exact h.of_sameRows (Call.sameRows (.deleteTask taskId) hconsistent hseen hrun)
  | recordIgnorePolicyRevision revision =>
    exact h.of_sameRows (Call.sameRows (.recordIgnorePolicyRevision revision) hconsistent hseen
      hrun)
  | markTransferChunksCompleted transferId chunkIndices updatedAtMs =>
    exact h.of_sameRows (Call.sameRows
      (.markTransferChunksCompleted transferId chunkIndices updatedAtMs) hconsistent hseen hrun)

end Unseen

/-! ## Runs

Two kinds of things happen to a database.  The node calls one of its functions, and goes on with
what its own `Database` says if the call returns; or somebody calls a function for another task, and
the node must not notice. -/

/-- The connection, and what the node has. -/
structure World (H : Type) where
  connection : Connection Tables
  node : Database H

/-- The node calls, or somebody else does. -/
inductive Turn (H : Type) where
  | own (op : Op H)
  | other (call : Call)

section Runs

variable (fault : Nat → Option Error) (coding : Coding H) (task : Bytes)

/-- The node goes on from a call that returned, as its `Database` says. -/
def World.step (w : World H) : Turn H → World H
  | .own op =>
    match (op.call coding task).perform fault w.connection with
    | (.ok _, c) => ⟨c, (op.apply w.node).toOption.getD w.node⟩
    | (.error _, c) => ⟨c, w.node⟩
  | .other call => ⟨Storage.step fault w.connection call, w.node⟩

/-- What a node gives its calls, and what others leave alone. -/
def World.Admits (w : World H) : Turn H → Prop
  | .own op => op.Fits task ∧ op.Owned coding task w.connection.db
  | .other call => ¬ call.Seen w.connection.db task

/-- **What a call says is so**: one that returns has done what the `Database` says, one that throws
has done nothing. -/
def World.Follows (w : World H) : Turn H → Prop
  | .own op =>
    match ((op.call coding task).perform fault w.connection).1 with
    | .ok _ => op.apply w.node = .ok (w.step fault coding task (.own op)).node
    | .error e => (w.step fault coding task (.own op)).connection.db = w.connection.db ∧
      ((∃ i, fault i = some e) ∨ (op.call coding task).run w.connection.db = .error e)
  | .other _ => True

end Runs

/-- What a run keeps. -/
structure World.Kept (coding : Coding H) (task : Bytes) (w : World H) : Prop where
  idle : w.connection.Idle
  consistent : Consistent w.connection.db
  shows : Shows coding task w.connection.db w.node
  plain : Plain task w.node

section Steps

variable {fault : Nat → Option Error} {w : World H}

theorem World.own_step (op : Op H) (h : w.Kept coding task)
    (hadmits : w.Admits coding task (.own op)) :
    w.Follows fault coding task (.own op) ∧
      (w.step fault coding task (.own op)).Kept coding task := by
  obtain ⟨hfits, howned⟩ := hadmits
  have hbehaves : Behaves fault w.connection (op.call coding task) ∧
      (Storage.step fault w.connection (op.call coding task)).Idle ∧
      Consistent (Storage.step fault w.connection (op.call coding task)).db :=
    call_behaves _ h.idle h.consistent
  obtain ⟨-, hidle, hconsistent⟩ := hbehaves
  have hperform : Atomic fault ((op.call coding task).perform fault) (op.call coding task).run :=
    atomic_perform _
  have hatomic := hperform w.connection h.idle
  rw [Wp] at hatomic
  rw [Storage.step] at hidle hconsistent
  rw [World.Follows]
  rcases hrun : (op.call coding task).perform fault w.connection with ⟨e | u, c⟩
  · rw [hrun] at hatomic hidle hconsistent
    obtain ⟨hdb, -, hcause⟩ := hatomic
    have hstep : w.step fault coding task (.own op) = ⟨c, w.node⟩ := by
      rw [World.step, hrun]
    rw [hstep]
    refine ⟨⟨hdb, hcause⟩, hidle, hconsistent, ?_, h.plain⟩
    show Shows coding task c.db w.node
    rw [hdb]
    exact h.shows
  · rw [hrun] at hatomic hidle hconsistent
    obtain ⟨db', happly, hshows⟩ :=
      op.refines h.shows h.consistent hfits howned hatomic.1
    have hstep : w.step fault coding task (.own op) = ⟨c, db'⟩ := by
      rw [World.step, hrun, happly]
      rfl
    rw [hstep]
    exact ⟨happly, hidle, hconsistent, hshows, op.plain h.plain hfits happly⟩

theorem World.other_step (call : Call) (h : w.Kept coding task)
    (hadmits : w.Admits coding task (.other call)) :
    (w.step fault coding task (.other call)).Kept coding task := by
  have hbehaves : Behaves fault w.connection call ∧ (Storage.step fault w.connection call).Idle ∧
      Consistent (Storage.step fault w.connection call).db :=
    call_behaves _ h.idle h.consistent
  obtain ⟨-, hidle, hconsistent⟩ := hbehaves
  refine ⟨hidle, hconsistent, ?_, h.plain⟩
  have hperform : Atomic fault (call.perform fault) call.run := atomic_perform call
  have hatomic := hperform w.connection h.idle
  rw [Wp] at hatomic
  show Shows coding task (Storage.step fault w.connection call).db w.node
  rw [Storage.step]
  rcases hrun : call.perform fault w.connection with ⟨e | u, c⟩
  · rw [hrun] at hatomic
    show Shows coding task c.db w.node
    rw [hatomic.1]
    exact h.shows
  · rw [hrun] at hatomic
    exact call.unseen h.shows h.consistent hadmits hatomic.1

theorem World.turn (w : World H) (turn : Turn H) (hadmits : w.Admits coding task turn)
    (h : w.Kept coding task) :
    w.Follows fault coding task turn ∧ (w.step fault coding task turn).Kept coding task := by
  cases turn with
  | own op => exact World.own_step op h hadmits
  | other call => exact ⟨trivial, World.other_step call h hadmits⟩

end Steps

/-- **A node and its rows**, from the creation of its task on, whatever the storage fails and
whatever is called for other tasks: a call of the node that returns has done what the `Database`
says, one that throws has done nothing, and all that the node reads is what its `Database` has. -/
theorem task_runs [DecidableEq H] (coding : Coding H) (fault : Nat → Option Error)
    (c : Connection Tables) (hidle : c.Idle) (hconsistent : Consistent c.db) (createdAtMs : Int)
    (outside : Except Error Unit) (definition : TaskDefinition) (hzero : 0 ∉ definition.taskId)
    (hcreated : ((Call.one (.createTask createdAtMs outside definition)).perform fault c).1 =
      .ok ()) (turns : List (Turn H)) :
    let task := definition.taskId
    let created : World H :=
      ⟨step fault c (.one (.createTask createdAtMs outside definition)), Database.empty⟩
    Run.Along (World.step fault coding task) (World.Admits coding task) created turns →
      let w := Run.run (World.step fault coding task) created turns
      Run.Along (World.step fault coding task) (World.Follows fault coding task) created turns ∧
        Reads coding task w.connection.db w.node := by
  intro task created hadmits w
  have hbehaves : Behaves fault c (.one (.createTask createdAtMs outside definition)) ∧
      created.connection.Idle ∧ Consistent created.connection.db :=
    call_behaves _ hidle hconsistent
  have hperform : Atomic fault ((Call.one (.createTask createdAtMs outside definition)).perform
      fault) (Call.run (.one (.createTask createdAtMs outside definition))) := atomic_perform _
  have hatomic := hperform c hidle
  rw [Wp] at hatomic
  have hshows : Shows coding task created.connection.db (Database.empty : Database H) := by
    show Shows coding task (step fault c _).db _
    rw [step]
    rcases hrun : (Call.one (.createTask createdAtMs outside definition)).perform fault c with
      ⟨e | u, c'⟩
    · rw [hrun] at hcreated
      cases hcreated
    · rw [hrun] at hatomic
      exact shows_createTask hconsistent hzero hatomic.1
  have hkept : created.Kept coding task :=
    ⟨hbehaves.2.1, hbehaves.2.2, hshows, plain_empty task⟩
  have hturn : ∀ (w : World H) turn, w.Admits coding task turn → w.Kept coding task →
      w.Follows fault coding task turn ∧ (w.step fault coding task turn).Kept coding task :=
    fun w turn hadmits hw => World.turn w turn hadmits hw
  have hafter : w.Kept coding task :=
    Run.run_invariant (fun w turn hadmits hw => (hturn w turn hadmits hw).2) turns created hadmits
      hkept
  exact ⟨Run.along_of_invariant hturn turns created hadmits hkept,
    hafter.shows.reads hafter.plain hafter.consistent⟩

/-- A hash as it is computed. -/
abbrev Digest : Type := { hash : Bytes // hash.length = 32 }

theorem Digest.length_val (hash : Digest) : hash.val.length = 32 := hash.property

theorem Digest.val_injective : Function.Injective (Subtype.val : Digest → Bytes) :=
  Subtype.val_injective

theorem Digest.length_hex (hash : Digest) : (Tracker.hex hash.val).length = 64 := by
  simp [Tracker.hex, List.length_flatMap, hash.property]

theorem Digest.hex_plain (hash : Digest) : 0 ∉ Tracker.hex hash.val := by
  have hdigit : ∀ n < 16, (0 : UInt8) ≠ Tracker.lowerDigit n := by decide
  intro hzero
  obtain ⟨byte, -, hbyte⟩ := List.mem_flatMap.mp hzero
  have hlt := byte.toNat_lt
  rcases List.mem_cons.mp hbyte with hhigh | hlow
  · exact hdigit _ (by omega) hhigh
  · exact hdigit _ (by omega) (List.mem_singleton.mp hlow)

/-- Hashes with their hexadecimal texts. -/
def digests : Coding Digest where
  blob := Subtype.val
  text hash := Tracker.hex hash.val
  blob_length := Digest.length_val
  blob_injective := Digest.val_injective
  text_length := Digest.length_hex
  text_plain := Digest.hex_plain

/-- The task `a`. -/
def firstTask : TaskDefinition :=
  ⟨ascii "a", ascii "bidirectional", ascii "peer", ascii "/a"⟩

/-- The task is created in a new database. -/
def firstWorld : World Digest :=
  ⟨step noFault ⟨newTables, none, 0⟩ (.one (.createTask 1 (.ok ()) firstTask)), Database.empty⟩

/-- A download, and what is done to the task `b` meanwhile. -/
def firstTurns : List (Turn Digest) :=
  [.own (.one (.advanceLogicalClock 7)),
    .other (.one (.createTask 1 (.ok ())
      ⟨ascii "b", ascii "bidirectional", ascii "peer", ascii "/b"⟩)),
    .other (.one (.advanceLogicalClock (ascii "b") 3)),
    .own (.one (.createTransfer
      ⟨1, ascii "d", .download, ⟨List.replicate 32 7, rfl⟩, .active, 1, 1, ascii "f", []⟩)),
    .own (.markTransferChunksCompleted 1 [1, 0] 2)]

theorem firstTurns_admitted : Run.Along (World.step noFault digests firstTask.taskId)
    (World.Admits digests firstTask.taskId) firstWorld firstTurns := by
  rw [firstTurns]
  refine ⟨⟨?_, trivial⟩, fun h => ?_, fun h => ?_, ⟨?_, trivial⟩, ⟨?_, ?_⟩, trivial⟩
  · show 7 < 2 ^ 64
    decide
  · exact absurd h.1 (by decide)
  · have htask : boundText (ascii "b") = firstTask.taskId := h.2
    exact absurd htask (by decide)
  · exact ⟨by norm_num, by decide, by decide, rfl⟩
  · exact ⟨by norm_num, by decide⟩
  · show ∀ row ∈ (Run.run (World.step noFault digests firstTask.taskId) firstWorld
      (firstTurns.take 4)).connection.db .transfers,
      row.transferId = some (transferKey 1).val → row.taskId = firstTask.taskId
    decide +kernel

/-- The chunks that the node has marked, it reads. -/
theorem task_runs_download :
    let w := Run.run (World.step noFault digests firstTask.taskId) firstWorld firstTurns
    Run.Along (World.step noFault digests firstTask.taskId)
        (World.Follows noFault digests firstTask.taskId) firstWorld firstTurns ∧
      Reads digests firstTask.taskId w.connection.db w.node :=
  task_runs digests noFault ⟨newTables, none, 0⟩ rfl consistent_newTables 1 (.ok ()) firstTask
    (by decide) (by decide +kernel) firstTurns firstTurns_admitted

end Storage

end VeritasSync
