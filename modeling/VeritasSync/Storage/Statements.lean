import VeritasSync.Security.JoinInvitation
import VeritasSync.Storage.Database

/-!
# The functions that write to the database

Every function of `storage::Database` that changes a table, on the tables as SQLite has them: the
checks it makes on its arguments, and its statement with the constraints of the table.  The
arguments are those of the source, texts and all; a text is bound without its length.

A function with one statement can be part of a transaction of its caller (`Statement`); the others
open a transaction of their own (`Call`).  The body of an `InTransaction` is the list of the
functions that it calls in one execution, whatever its decisions depend on, with the exception that
it ends with, if any.  It does not catch those of the functions.

Every function is written as its checks and its statement, because the two fail differently.  A
check throws before the database is touched, with the text of the function; a statement can fail
because of a constraint, with the text of SQLite (of which only the part before the colon is
modelled), or because the storage fails.  `Call.perform` puts both onto a connection, where the
storage may fail any statement, `BEGIN` and `COMMIT` included.

## What is here

* `allowed` — the `CHECK` constraints.
* `insert`, `upsert`, `update` — a statement on one table, with its constraints.
* `Statement.validate`, `Statement.write` — the checks and the statement of each function.
* `Call.perform` — the functions, on a connection whose statements can fail.
-/

set_option autoImplicit false

namespace VeritasSync

namespace Storage

open Exec Relational Transaction

/-! ## The records of the interface -/

/-- `TransferId`. -/
abbrev TransferId : Type := { bytes : Bytes // bytes.length = 16 }

/-- `FileRecord`, with the members as the C++ structure has them: strings that may contain zero
bytes, and 64-bit words. -/
structure FileRecord where
  taskId : Bytes
  relativePath : Bytes
  kind : FileKind
  size : UInt64
  mtimeNs : Int
  contentHash : Bytes
  versionId : Bytes
  originDeviceId : Bytes
  logicalClock : UInt64
  deletedAtMs : Option Int

/-- `TransferRecord`, with an identifier of sixteen bytes. -/
structure TransferRecord where
  transferId : TransferId
  taskId : Bytes
  peerDeviceId : Bytes
  direction : Bytes
  fileHash : Bytes
  state : Bytes
  createdAtMs : Int
  updatedAtMs : Int
  relativePath : Bytes

/-- `VersionLineage`, with the task it belongs to. -/
structure VersionLineage where
  taskId : Bytes
  versionId : Bytes
  parentVersionId : Option Bytes

/-- `ConflictRecord`, with the task it belongs to. -/
structure ConflictRecord where
  conflictId : Bytes
  taskId : Bytes
  originalPath : Bytes
  winningVersionId : Bytes
  conflictPath : Bytes
  state : Bytes
  createdAtMs : Int

/-- `EngineEvent`, whose number the table gives. -/
structure EngineEvent where
  taskId : Option Bytes
  level : Bytes
  message : Bytes
  createdAtMs : Int

/-- `PendingIgnorePolicy`, with hash, source and state as texts. -/
structure PendingIgnorePolicy where
  taskId : Bytes
  proposalId : Bytes
  originDeviceId : Bytes
  baseHash : Bytes
  rules : Bytes
  source : Bytes
  state : Bytes

/-- The arguments of `RecordIgnorePolicyRevision`. -/
structure NewRevision where
  taskId : Bytes
  content : Bytes
  contentHash : Bytes
  source : Bytes
  createdAtMs : Int

/-! ## Columns

An integer column has 64 bits and a sign.  Clocks and sizes are unsigned in C++ and are cast on the
way in and on the way out; the casts undo each other, and the order of the column is not that of the
unsigned numbers. -/

/-- `static_cast<sqlite3_int64>`: the upper half of the words becomes negative. -/
def signed (n : UInt64) : Int := n.toBitVec.toInt

/-- `static_cast<std::uint64_t>`, which undoes `signed`. -/
def unsigned (n : Int) : UInt64 := ⟨BitVec.ofInt 64 n⟩

@[simp] theorem unsigned_signed (n : UInt64) : unsigned (signed n) = n :=
  UInt64.toBitVec_inj.mp BitVec.ofInt_toInt

/-- `FileKindName`: what is stored in the column of the kind. -/
def fileKindName : FileKind → Bytes
  | .file => ascii "file"
  | .directory => ascii "directory"
  | .tombstone => ascii "tombstone"

/-- The values of the columns with a `CHECK(… IN (…))`. -/
def modes : List Bytes := [ascii "one_way", ascii "bidirectional"]

@[inherit_doc modes] def roles : List Bytes := [ascii "source", ascii "target", ascii "peer"]

@[inherit_doc modes] def kinds : List Bytes := [ascii "file", ascii "directory", ascii "tombstone"]

@[inherit_doc modes] def directions : List Bytes := [ascii "upload", ascii "download"]

@[inherit_doc modes] def levels : List Bytes := [ascii "info", ascii "warning", ascii "error"]

@[inherit_doc modes] def sources : List Bytes := [ascii "manual", ascii "ai", ascii "undo"]

@[inherit_doc modes] def statuses : List Bytes :=
  [ascii "idle", ascii "watching", ascii "connecting", ascii "online", ascii "paused",
    ascii "error"]

@[inherit_doc modes] def networkStatuses : List Bytes :=
  [ascii "unpaired", ascii "offline", ascii "connecting", ascii "online", ascii "error"]

@[inherit_doc modes] def policyStates : List Bytes :=
  [ascii "proposed", ascii "prepared", ascii "committed", ascii "applied"]

/-- The states that the functions know of a transfer.  The table has no constraint on them. -/
def transferStates : List Bytes :=
  [ascii "active", ascii "completed", ascii "failed", ascii "cancelled"]

/-- The `CHECK` constraints of a row. -/
def allowed : ∀ table, Row table → Bool
  | .tasks, row => row.mode ∈ modes ∧ row.role ∈ roles
  | .fileRecords, row => row.kind ∈ kinds
  | .transfers, row => row.direction ∈ directions
  | .engineEvents, row => row.level ∈ levels
  | .ignorePolicyRevisions, row => 0 < row.revision ∧ row.source ∈ sources
  | .taskRuntime, row => row.status ∈ statuses ∧ row.networkStatus ∈ networkStatuses
  | .taskMembers, row => row.role ∈ roles
  | .pendingIgnorePolicies, row => row.source ∈ sources ∧ row.state ∈ policyStates
  | _, _ => true

/-! ## Statements

The statements that the functions use are of four forms.  Each is one definition, with the
constraints of the table that it writes to, and each function applies one of them to its row. -/

section Constraints

variable (what : String) (table : TableName)

/-- `INSERT`. -/
def insert (row : Row table) (db : Tables) : Except Error (Unit × Tables) :=
  if allowed table row = false then .error (.runtimeError (what ++ ": CHECK constraint failed"))
  else if (db table).any (sameKey table row) then
    .error (.runtimeError (what ++ ": UNIQUE constraint failed"))
  else
    (Relational.execute schema (.runtimeError (what ++ ": FOREIGN KEY constraint failed"))
      (insertRow table row) db).map fun db' => ((), db')

/-- `INSERT … ON CONFLICT … DO UPDATE SET …`. -/
def upsert (row : Row table) (change : Row table → Row table) (db : Tables) :
    Except Error (Unit × Tables) :=
  if allowed table row = false then .error (.runtimeError (what ++ ": CHECK constraint failed"))
  else
    (Relational.execute schema (.runtimeError (what ++ ": FOREIGN KEY constraint failed"))
      (upsertRow schema table row change) db).map fun db' => ((), db')

/-- `UPDATE … SET … WHERE …`, with `sqlite3_changes`. -/
def update (selects : Row table → Bool) (change : Row table → Row table) (db : Tables) :
    Except Error (Nat × Tables) :=
  if (db table).any fun row => selects row && !allowed table (change row) then
    .error (.runtimeError (what ++ ": CHECK constraint failed"))
  else
    (Relational.execute schema (.runtimeError (what ++ ": FOREIGN KEY constraint failed"))
      (updateRows table selects change) db).map fun db' => (((db table).filter selects).length, db')

/-- An update that throws if it did not change one row.  The key that it selects by leaves no more
than one, so there was none. -/
def updateOne (missing : String) (selects : Row table → Bool) (change : Row table → Row table)
    (db : Tables) : Except Error (Unit × Tables) :=
  update what table selects change db >>= fun r =>
    if r.1 ≠ 1 then .error (.invalidArgument missing) else .ok ((), r.2)

end Constraints

/-! ## The functions with one statement -/

/-- The calls of a function with one statement.  `RecordTombstone` is one of `UpsertFileRecord`. -/
inductive Statement where
  /-- `CreateTask`; `outside` is what becomes of the look for the database under the root. -/
  | createTask (createdAtMs : Int) (outside : Except Error Unit) (task : TaskDefinition)
  | updateTaskNetworkState (taskId networkStatus : Bytes) (networkError : Option Bytes)
  | setTaskEnabled (taskId : Bytes) (enabled : Bool)
  | updateTaskRuntime (taskId status : Bytes) (dirty : Bool) (lastScanAtMs : Option Int)
      (lastError : Option Bytes)
  | configureTaskConnection (connection : TaskConnection)
  | upsertTaskMember (member : TaskMember)
  | upsertFileRecord (record : FileRecord)
  | recordVersionLineage (lineage : VersionLineage)
  | advanceLogicalClock (taskId : Bytes) (observedRemoteClock : UInt64)
  | recordConflict (conflict : ConflictRecord)
  | updateConflictState (conflictId state : Bytes)
  | recordEngineEvent (event : EngineEvent)
  | savePendingIgnorePolicy (policy : PendingIgnorePolicy)
  | clearPendingIgnorePolicy (taskId : Bytes)
  | createTransfer (transfer : TransferRecord)
  | updateTransferState (transferId : TransferId) (state : Bytes) (updatedAtMs : Int)
      (errorCode : Option Bytes)

/-- `RecordTombstone`. -/
def Statement.recordTombstone (taskId relativePath versionId originDeviceId : Bytes)
    (logicalClock : UInt64) (deletedAtMs : Int) : Statement :=
  .upsertFileRecord ⟨taskId, relativePath, .tombstone, 0, 0, [], versionId, originDeviceId,
    logicalClock, some deletedAtMs⟩

/-- `ValidateFileRecord`, the checks before the statement; those of the schema come with it. -/
def validateFileRecord (record : FileRecord) : Except Error Unit := do
  if record.taskId = [] ∨ record.versionId = [] ∨ record.originDeviceId = [] then
    throw (.invalidArgument "file record identity fields are required")
  Database.validateRelativePath record.relativePath
  if record.kind = .file ∧ record.contentHash = [] then
    throw (.invalidArgument "file records require a content hash")
  if record.kind = .tombstone ∧ record.deletedAtMs.isNone then
    throw (.invalidArgument "tombstones require a deletion timestamp")
  if record.kind ≠ .tombstone ∧ record.deletedAtMs.isSome then
    throw (.invalidArgument "live records must not have a deletion timestamp")

/-- `ValidateTransfer`, the checks before the statement. -/
def validateTransfer (transfer : TransferRecord) : Except Error Unit := do
  if transfer.taskId = [] ∨ transfer.peerDeviceId = [] ∨ transfer.direction ∉ directions ∨
      (∀ byte ∈ transfer.transferId.val, byte = 0) ∨ transfer.fileHash.length ≠ 32 ∨
      transfer.state ∉ transferStates ∨ transfer.createdAtMs ≤ 0 ∨ transfer.updatedAtMs ≤ 0 then
    throw (.invalidArgument "transfer fields are invalid")
  if transfer.relativePath ≠ [] then Database.validateRelativePath transfer.relativePath

/-- The checks that a function makes on its arguments. -/
def Statement.validate : Statement → Except Error Unit
  | .createTask _ outside task => do
    if task.taskId = [] ∨ task.rootPath = [] then
      throw (.invalidArgument "task id and root path are required")
    outside
    if task.mode = ascii "one_way" ∧ task.role ≠ ascii "source" ∧ task.role ≠ ascii "target" ∨
        task.mode = ascii "bidirectional" ∧ task.role ≠ ascii "peer" then
      throw (.invalidArgument "task mode and role are incompatible")
  | .updateTaskNetworkState taskId networkStatus _ =>
    if taskId = [] ∨ networkStatus ∉ networkStatuses then
      .error (.invalidArgument "task network state is invalid")
    else .ok ()
  | .setTaskEnabled taskId _ =>
    if taskId = [] then .error (.invalidArgument "task id is required") else .ok ()
  | .updateTaskRuntime taskId status _ _ _ =>
    if taskId = [] ∨ status ∉ statuses then
      .error (.invalidArgument "task runtime state is invalid")
    else .ok ()
  | .configureTaskConnection connection =>
    if connection.Invalid then .error (.invalidArgument "task connection is invalid") else .ok ()
  | .upsertTaskMember member =>
    if member.Invalid then .error (.invalidArgument "task member is invalid") else .ok ()
  | .upsertFileRecord record => validateFileRecord record
  | .recordVersionLineage lineage =>
    if lineage.taskId = [] ∨ lineage.versionId = [] ∨ lineage.parentVersionId = some [] ∨
        lineage.parentVersionId = some lineage.versionId then
      .error (.invalidArgument "version lineage is invalid")
    else .ok ()
  | .advanceLogicalClock taskId observedRemoteClock =>
    if taskId = [] ∨ observedRemoteClock.toNat > Database.int64Max then
      .error (.invalidArgument "logical clock arguments are invalid")
    else .ok ()
  | .recordConflict conflict => do
    if conflict.conflictId = [] ∨ conflict.taskId = [] ∨ conflict.originalPath = [] ∨
        conflict.winningVersionId = [] ∨ conflict.conflictPath = [] ∨ conflict.state = [] ∨
        conflict.createdAtMs ≤ 0 then
      throw (.invalidArgument "conflict record is invalid")
    Database.validateRelativePath conflict.originalPath
    Database.validateRelativePath conflict.conflictPath
  | .updateConflictState conflictId state =>
    if conflictId = [] ∨ state ≠ ascii "unresolved" ∧ state ≠ ascii "resolved" then
      .error (.invalidArgument "conflict state update is invalid")
    else .ok ()
  | .recordEngineEvent event =>
    if event.taskId = some [] ∨ event.level ∉ levels ∨ event.message = [] ∨
        event.createdAtMs ≤ 0 then
      .error (.invalidArgument "engine event is invalid")
    else .ok ()
  | .savePendingIgnorePolicy _ => .ok ()
  | .clearPendingIgnorePolicy _ => .ok ()
  | .createTransfer transfer => validateTransfer transfer
  | .updateTransferState _ state updatedAtMs _ =>
    if state ∉ transferStates ∨ updatedAtMs ≤ 0 then
      .error (.invalidArgument "transfer state is invalid")
    else .ok ()

/-- `UPDATE task_runtime SET … WHERE task_id=?`. -/
def updateRuntime (what : String) (taskId : Bytes) (change : TaskRuntimeRow → TaskRuntimeRow)
    (db : Tables) : Except Error (Unit × Tables) :=
  updateOne what .taskRuntime "task does not exist"
    (fun row => row.taskId = some (boundText taskId)) change db

/-- The row of a record. -/
def FileRecord.row (record : FileRecord) : FileRecordRow :=
  ⟨boundText record.taskId, boundText record.relativePath, fileKindName record.kind,
    signed record.size, record.mtimeNs,
    if record.contentHash = [] then none else some record.contentHash,
    boundText record.versionId, boundText record.originDeviceId, signed record.logicalClock,
    record.deletedAtMs⟩

/-- The row of a version. -/
def VersionLineage.row (lineage : VersionLineage) : LineageRow :=
  ⟨boundText lineage.taskId, boundText lineage.versionId, lineage.parentVersionId.map boundText⟩

/-- The row of a conflict. -/
def ConflictRecord.row (conflict : ConflictRecord) : ConflictRow :=
  ⟨some (boundText conflict.conflictId), boundText conflict.taskId, boundText conflict.originalPath,
    boundText conflict.winningVersionId, boundText conflict.conflictPath, boundText conflict.state,
    conflict.createdAtMs⟩

/-- The row of an event. -/
def EngineEvent.row (eventId : Int) (event : EngineEvent) : EngineEventRow :=
  ⟨eventId, event.taskId.map boundText, boundText event.level, boundText event.message,
    event.createdAtMs⟩

/-- The row of a negotiation. -/
def PendingIgnorePolicy.row (policy : PendingIgnorePolicy) : PendingIgnorePolicyRow :=
  ⟨some (boundText policy.taskId), boundText policy.proposalId, boundText policy.originDeviceId,
    boundText policy.baseHash, boundText policy.rules, boundText policy.source,
    boundText policy.state⟩

/-- The row of a transfer. -/
def TransferRecord.row (transfer : TransferRecord) : TransferRow :=
  ⟨some transfer.transferId.val, boundText transfer.taskId, boundText transfer.peerDeviceId,
    boundText transfer.direction, transfer.fileHash, boundText transfer.state, none,
    transfer.createdAtMs, transfer.updatedAtMs, boundText transfer.relativePath⟩

/-- The number that `AUTOINCREMENT` gives.  No event is ever deleted. -/
def nextEventId (db : Tables) : Int :=
  ((db .engineEvents).map EngineEventRow.eventId).foldl max 0 + 1

/-- The clock of a task, which is zero before its first event. -/
def currentClock (taskId : Bytes) (db : Tables) : Nat :=
  (((db .taskClocks).find? fun row => row.taskId = some (boundText taskId)).map
    TaskClockRow.logicalClock).getD 0

/-- The body of `AdvanceLogicalClock`. -/
def advanceClock (taskId : Bytes) (observedRemoteClock : UInt64) (db : Tables) :
    Except Error (Nat × Tables) :=
  let base := max (currentClock taskId db) observedRemoteClock.toNat
  if base = Database.int64Max then .error (.overflowError "logical clock overflow")
  else
    (upsert "update logical clock" .taskClocks ⟨some (boundText taskId), base + 1⟩
      (fun old => { old with logicalClock := base + 1 }) db).map fun r => (base + 1, r.2)

/-- `FindVersionLineage`. -/
def findVersionLineage (taskId versionId : Bytes) (db : Tables) :
    Except Error (Option VersionLineage) :=
  if taskId = [] ∨ versionId = [] then
    .error (.invalidArgument "version lineage lookup is invalid")
  else
    .ok (((db .versionLineage).find? fun row =>
      row.taskId = boundText taskId ∧ row.versionId = boundText versionId).map fun row =>
        ⟨taskId, versionId, row.parentVersionId⟩)

/-- The statement of a function. -/
def Statement.write : Statement → Tables → Except Error (Unit × Tables)
  | .createTask createdAtMs _ task, db => insertTask createdAtMs task db
  | .updateTaskNetworkState taskId networkStatus networkError, db =>
    updateRuntime "update task network state" taskId (fun row => { row with
      networkStatus := boundText networkStatus, networkError := networkError.map boundText }) db
  | .setTaskEnabled taskId enabled, db =>
    updateRuntime "update task enabled" taskId (fun row => { row with
      enabled := enabled
      status := if enabled then ascii "idle" else ascii "paused"
      dirty := if enabled then true else row.dirty
      lastError := none }) db
  | .updateTaskRuntime taskId status dirty lastScanAtMs lastError, db =>
    updateRuntime "update task runtime" taskId (fun row => { row with
      status := boundText status, dirty := dirty, lastScanAtMs := lastScanAtMs
      lastError := lastError.map boundText }) db
  | .configureTaskConnection connection, db => connection.write db
  | .upsertTaskMember member, db => member.write db
  | .upsertFileRecord record, db =>
    upsert "upsert file record" .fileRecords record.row (fun old =>
      { record.row with taskId := old.taskId, relativePath := old.relativePath }) db
  | .recordVersionLineage lineage, db => do
    match ← findVersionLineage lineage.taskId lineage.versionId db with
    | some existing =>
      if existing.parentVersionId ≠ lineage.parentVersionId then
        throw (.invalidArgument "version lineage parent is immutable")
      pure ((), db)
    | none => insert "insert version lineage" .versionLineage lineage.row db
  | .advanceLogicalClock taskId observedRemoteClock, db =>
    (advanceClock taskId observedRemoteClock db).map fun r => ((), r.2)
  | .recordConflict conflict, db => insert "insert conflict" .conflicts conflict.row db
  | .updateConflictState conflictId state, db =>
    updateOne "update conflict state" .conflicts "conflict does not exist"
      (fun row => row.conflictId = some (boundText conflictId))
      (fun row => { row with state := boundText state }) db
  | .recordEngineEvent event, db =>
    if nextEventId db > Database.int64Max then
      .error (.runtimeError "insert engine event: database or disk is full")
    else insert "insert engine event" .engineEvents (event.row (nextEventId db)) db
  | .savePendingIgnorePolicy policy, db =>
    upsert "persist policy negotiation" .pendingIgnorePolicies policy.row (fun old =>
      { policy.row with taskId := old.taskId }) db
  | .clearPendingIgnorePolicy taskId, db =>
    (Relational.execute schema
      (.runtimeError "delete pending policy: FOREIGN KEY constraint failed")
      (delete schema (onTable .pendingIgnorePolicies fun row =>
        row.taskId = some (boundText taskId))) db).map fun db' => ((), db')
  | .createTransfer transfer, db => insert "insert transfer" .transfers transfer.row db
  | .updateTransferState transferId state updatedAtMs errorCode, db =>
    updateOne "update transfer state" .transfers "transfer does not exist"
      (fun row => row.transferId = some transferId.val)
      (fun row => { row with
        state := boundText state, errorCode := errorCode.map boundText
        updatedAtMs := updatedAtMs }) db

/-! ## All functions -/

/-- A call of a function that writes. -/
inductive Call where
  | one (statement : Statement)
  | deleteTask (taskId : Bytes)
  | recordIgnorePolicyRevision (revision : NewRevision)
  | markTransferChunksCompleted (transferId : TransferId) (chunkIndices : List UInt64)
      (updatedAtMs : Int)
  /-- `InTransaction`, with what its body throws after these calls. -/
  | inTransaction (body : List Statement) (thrown : Option Error)

/-- The checks of `RecordIgnorePolicyRevision`. -/
def NewRevision.validate (revision : NewRevision) : Except Error Unit :=
  if revision.taskId = [] ∨ revision.content.length > 16 * 1024 ∨
      revision.contentHash.length ≠ 64 ∨ revision.source ∉ sources ∨ revision.createdAtMs ≤ 0 then
    .error (.invalidArgument "ignore policy revision is invalid")
  else .ok ()

/-- `SELECT MAX(revision) FROM ignore_policy_revisions WHERE task_id=?`, or zero. -/
def lastRevision (taskId : Bytes) (db : Tables) : Int :=
  (((db .ignorePolicyRevisions).filter fun row => row.taskId = boundText taskId).map
    IgnorePolicyRevisionRow.revision).foldl max 0

/-- `SELECT COALESCE(MAX(revision), 0) + 1 …`.  The successor of the largest integer is a real
number, which is read as this integer. -/
def nextRevision (taskId : Bytes) (db : Tables) : Int :=
  min (lastRevision taskId db + 1) Database.int64Max

/-- The rows of a new revision.  Its content is bound with its length. -/
def NewRevision.row (revision : NewRevision) (number : Int) : IgnorePolicyRevisionRow :=
  ⟨boundText revision.taskId, number, revision.content, boundText revision.contentHash,
    boundText revision.source, revision.createdAtMs⟩

@[inherit_doc NewRevision.row] def NewRevision.stateRow (revision : NewRevision) (number : Int) :
    IgnorePolicyStateRow :=
  ⟨some (boundText revision.taskId), number, boundText revision.contentHash, revision.createdAtMs⟩

/-- `RecordIgnorePolicyRevision` inside its transaction: the number of the new revision. -/
def recordRevision (fault : Nat → Option Error) (revision : NewRevision) :
    Exec (Connection Tables) Error Int := do
  let number ← select fault fun db => .ok (nextRevision revision.taskId db)
  if number ≤ 0 then raise (.runtimeError "ignore policy revision overflow")
  else do
    statement fault (insert "insert ignore policy revision" .ignorePolicyRevisions
      (revision.row number))
    statement fault (upsert "update ignore policy state" .ignorePolicyState
      (revision.stateRow number) fun old =>
        { revision.stateRow number with taskId := old.taskId })
    pure number

/-- The mark of a chunk. -/
def markChunk (transferId : TransferId) (chunkIndex : UInt64) (db : Tables) :
    Except Error (Unit × Tables) :=
  upsert "mark transfer chunk complete" .transferChunks
    ⟨transferId.val, signed chunkIndex, true⟩ (fun old => { old with completed := true }) db

/-- `UPDATE transfers SET updated_at_ms=? WHERE transfer_id=?`. -/
def touchTransfer (transferId : TransferId) (updatedAtMs : Int) (db : Tables) :
    Except Error (Unit × Tables) :=
  updateOne "update transfer timestamp" .transfers "transfer does not exist"
    (fun row => row.transferId = some transferId.val)
    (fun row => { row with updatedAtMs := updatedAtMs }) db

/-- The checks of `MarkTransferChunksCompleted`. -/
def validateChunks (chunkIndices : List UInt64) (updatedAtMs : Int) : Except Error Unit :=
  if chunkIndices = [] ∨ updatedAtMs ≤ 0 ∨
      (∃ chunkIndex ∈ chunkIndices, chunkIndex.toNat > Database.int64Max) then
    .error (.invalidArgument "transfer chunk fields are invalid")
  else .ok ()

section Functions

variable (fault : Nat → Option Error)

/-- The statement of a function.  `AdvanceLogicalClock` opens a transaction if its caller has not
opened one. -/
def Statement.execute (s : Statement) : Exec (Connection Tables) Error Unit := do
  let c ← state
  match s, c.saved with
  | .advanceLogicalClock _ _, none => Transaction.inTransaction fault (statement fault s.write)
  | _, _ => statement fault s.write

/-- A function with one statement. -/
def Statement.perform (s : Statement) : Exec (Connection Tables) Error Unit := do
  check fun _ => s.validate
  s.execute fault

/-- The body of an `InTransaction`. -/
def performAll (body : List Statement) (thrown : Option Error) :
    Exec (Connection Tables) Error Unit := do
  body.forM (Statement.perform fault)
  match thrown with
  | some e => raise e
  | none => pure ()

/-- A call of one of the functions. -/
def Call.perform : Call → Exec (Connection Tables) Error Unit
  | .one s => s.perform fault
  | .deleteTask taskId => VeritasSync.deleteTask fault taskId
  | .recordIgnorePolicyRevision revision => do
    check fun _ => revision.validate
    let _ ← Transaction.inTransaction fault (recordRevision fault revision)
  | .markTransferChunksCompleted transferId chunkIndices updatedAtMs => do
    check fun _ => validateChunks chunkIndices updatedAtMs
    Transaction.inTransaction fault do
      chunkIndices.forM fun chunkIndex => statement fault (markChunk transferId chunkIndex)
      statement fault (touchTransfer transferId updatedAtMs)
  | .inTransaction body thrown => Transaction.inTransaction fault (performAll fault body thrown)

end Functions

end Storage

end VeritasSync
