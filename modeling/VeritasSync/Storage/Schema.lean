import VeritasSync.Common.Protocol
import VeritasSync.Lib.Relational

/-!
# The schema of the database

The tables that `ApplyMigrations` leaves behind, with their columns in the order of the migrations,
their primary keys, and what refers to what.  A column that may be NULL is an `Option`; SQLite lets
a primary key of texts be NULL where the declaration does not forbid it.  The indexes have no
meaning of their own, and the one trigger is part of the statement that fires it.

Texts are bound without their length, so a statement sees what is left of a text before its first
zero byte.

The tables are one dependent function from their names to lists of rows, so that a statement about
all tables is a statement about a variable.  Rows are structures with the columns for fields;
nothing is left out, since the deletion of a task and the constraints concern every column that can
hold a reference.

## What is here

* `boundText` — the text a statement sees.
* `TableName`, `Row`, `Tables` — the tables.
* `schema` — the keys and the references.
* `Belongs` — the rows of a task, in every table.
-/

set_option autoImplicit false

namespace VeritasSync

/-- What `sqlite3_bind_text` sees of a text that is bound without its length. -/
def boundText (text : Bytes) : Bytes := text.takeWhile fun c => c ≠ 0

theorem boundText_of_notMem {text : Bytes} (h : 0 ∉ text) : boundText text = text := by
  refine List.takeWhile_eq_self_iff.mpr fun c hc => decide_eq_true ?_
  rintro rfl
  exact h hc

/-! ## Rows -/

/-- `tasks`: a row for each task, to which almost everything else refers. -/
structure TaskRow where
  taskId : Option Bytes
  mode : Bytes
  role : Bytes
  rootPath : Bytes
  createdAtMs : Int
  deriving DecidableEq

/-- `file_records`: one row for each path of a task. -/
structure FileRecordRow where
  taskId : Bytes
  relativePath : Bytes
  kind : Bytes
  size : Int
  mtimeNs : Int
  contentHash : Option Bytes
  versionId : Bytes
  originDeviceId : Bytes
  logicalClock : Int
  deletedAtMs : Option Int
  deriving DecidableEq

/-- `transfers`: one row for each transfer of chunks that has begun. -/
structure TransferRow where
  transferId : Option Bytes
  taskId : Bytes
  peerDeviceId : Bytes
  direction : Bytes
  fileHash : Bytes
  state : Bytes
  errorCode : Option Bytes
  createdAtMs : Int
  updatedAtMs : Int
  relativePath : Bytes
  deriving DecidableEq

/-- `transfer_chunks`: one row for each chunk that has been marked completed. -/
structure TransferChunkRow where
  transferId : Bytes
  chunkIndex : Int
  completed : Bool
  deriving DecidableEq

/-- `peer_state`: what is known of a peer of a task. -/
structure PeerStateRow where
  taskId : Bytes
  deviceId : Bytes
  fingerprint : Bytes
  lastConnectedAtMs : Option Int
  protocolVersion : Option Int
  acknowledgedManifestRevision : Option Int
  deriving DecidableEq

/-- `conflicts`: the conflicts that have been resolved, with the path of the copy. -/
structure ConflictRow where
  conflictId : Option Bytes
  taskId : Bytes
  originalPath : Bytes
  winningVersionId : Bytes
  conflictPath : Bytes
  state : Bytes
  createdAtMs : Int
  deriving DecidableEq

/-- `version_lineage`: the parent of each version of a task. -/
structure LineageRow where
  taskId : Bytes
  versionId : Bytes
  parentVersionId : Option Bytes
  deriving DecidableEq

/-- `task_clocks`: the logical clock of a task, in one row or none. -/
structure TaskClockRow where
  taskId : Option Bytes
  logicalClock : Nat
  deriving DecidableEq

/-- `engine_events`: what the engine has reported, with or without a task. -/
structure EngineEventRow where
  eventId : Int
  taskId : Option Bytes
  level : Bytes
  message : Bytes
  createdAtMs : Int
  deriving DecidableEq

/-- `ignore_policy_revisions`: the history of the rules of a task. -/
structure IgnorePolicyRevisionRow where
  taskId : Bytes
  revision : Int
  content : Bytes
  contentHash : Bytes
  source : Bytes
  createdAtMs : Int
  deriving DecidableEq

/-- `ignore_policy_state`: which revision of the rules is in force. -/
structure IgnorePolicyStateRow where
  taskId : Option Bytes
  revision : Int
  contentHash : Bytes
  updatedAtMs : Int
  deriving DecidableEq

/-- `task_runtime`, with the columns of the seventh migration. -/
structure TaskRuntimeRow where
  taskId : Option Bytes
  enabled : Bool
  status : Bytes
  dirty : Bool
  lastScanAtMs : Option Int
  lastError : Option Bytes
  networkStatus : Bytes
  networkError : Option Bytes
  deriving DecidableEq

/-- `task_connections`: how a task reaches its tracker. -/
structure TaskConnectionRow where
  taskId : Option Bytes
  trackerUrl : Bytes
  roomId : Bytes
  authorizationDigest : Bytes
  joinedAtMs : Int
  deriving DecidableEq

/-- `task_members`: the devices that take part in a task. -/
structure TaskMemberRow where
  taskId : Bytes
  deviceId : Bytes
  fingerprint : Bytes
  role : Bytes
  authorizedAtMs : Int
  revoked : Bool
  deriving DecidableEq

/-- `pending_ignore_policies`: the proposal of a task, in one row or none. -/
structure PendingIgnorePolicyRow where
  taskId : Option Bytes
  proposalId : Bytes
  originDeviceId : Bytes
  baseHash : Bytes
  rules : Bytes
  source : Bytes
  state : Bytes
  deriving DecidableEq

/-- `schema_migrations`: the versions that have been applied to the file. -/
structure SchemaMigrationRow where
  version : Int
  appliedAtMs : Int
  deriving DecidableEq

/-! ## Tables -/

inductive TableName where
  | schemaMigrations | tasks | fileRecords | transfers | transferChunks | peerState | conflicts
  | versionLineage | taskClocks | engineEvents | ignorePolicyRevisions | ignorePolicyState
  | taskRuntime | taskConnections | taskMembers | pendingIgnorePolicies
  deriving DecidableEq

instance : Fintype TableName :=
  Fintype.ofList [.schemaMigrations, .tasks, .fileRecords, .transfers, .transferChunks, .peerState,
    .conflicts, .versionLineage, .taskClocks, .engineEvents, .ignorePolicyRevisions,
    .ignorePolicyState, .taskRuntime, .taskConnections, .taskMembers, .pendingIgnorePolicies] (by
      intro table
      cases table <;> decide)

/-- The rows of a table. -/
@[reducible] def Row : TableName → Type
  | .schemaMigrations => SchemaMigrationRow
  | .tasks => TaskRow
  | .fileRecords => FileRecordRow
  | .transfers => TransferRow
  | .transferChunks => TransferChunkRow
  | .peerState => PeerStateRow
  | .conflicts => ConflictRow
  | .versionLineage => LineageRow
  | .taskClocks => TaskClockRow
  | .engineEvents => EngineEventRow
  | .ignorePolicyRevisions => IgnorePolicyRevisionRow
  | .ignorePolicyState => IgnorePolicyStateRow
  | .taskRuntime => TaskRuntimeRow
  | .taskConnections => TaskConnectionRow
  | .taskMembers => TaskMemberRow
  | .pendingIgnorePolicies => PendingIgnorePolicyRow

/-- The rows of all tables, in the order of their insertion. -/
abbrev Tables := ∀ table, List (Row table)

/-! ## Keys and references

What `PRIMARY KEY` and `REFERENCES` say, as data.  A key is compared column by column, and a
reference says which table it leads to and what becomes of the row when the other one is deleted. -/

open Relational

/-- Two values of a column that may be NULL are equal if they are there and the same. -/
def sameValue (a b : Option Bytes) : Bool := a.isSome && a = b

theorem sameValue_iff {a b : Option Bytes} :
    sameValue a b = true ↔ ∃ value, a = some value ∧ b = some value := by
  rw [sameValue, Bool.and_eq_true, Option.isSome_iff_exists, decide_eq_true_iff]
  constructor
  · rintro ⟨⟨value, rfl⟩, rfl⟩
    exact ⟨value, rfl, rfl⟩
  · rintro ⟨value, rfl, rfl⟩
    exact ⟨⟨value, rfl⟩, rfl⟩

theorem sameValue_comm (a b : Option Bytes) : sameValue a b = sameValue b a := by
  rw [Bool.eq_iff_iff, sameValue_iff, sameValue_iff]
  exact exists_congr fun _ => and_comm

/-- The primary keys: two rows that agree in them cannot be in a table together. -/
def sameKey : ∀ table, Row table → Row table → Bool
  | .schemaMigrations, a, b => a.version = b.version
  | .tasks, a, b => sameValue a.taskId b.taskId
  | .fileRecords, a, b => a.taskId = b.taskId ∧ a.relativePath = b.relativePath
  | .transfers, a, b => sameValue a.transferId b.transferId
  | .transferChunks, a, b => a.transferId = b.transferId ∧ a.chunkIndex = b.chunkIndex
  | .peerState, a, b => a.taskId = b.taskId ∧ a.deviceId = b.deviceId
  | .conflicts, a, b => sameValue a.conflictId b.conflictId
  | .versionLineage, a, b => a.taskId = b.taskId ∧ a.versionId = b.versionId
  | .taskClocks, a, b => sameValue a.taskId b.taskId
  | .engineEvents, a, b => a.eventId = b.eventId
  | .ignorePolicyRevisions, a, b => a.taskId = b.taskId ∧ a.revision = b.revision
  | .ignorePolicyState, a, b => sameValue a.taskId b.taskId
  | .taskRuntime, a, b => sameValue a.taskId b.taskId
  | .taskConnections, a, b => sameValue a.taskId b.taskId
  | .taskMembers, a, b => a.taskId = b.taskId ∧ a.deviceId = b.deviceId
  | .pendingIgnorePolicies, a, b => sameValue a.taskId b.taskId

theorem sameKey_comm (table : TableName) (a b : Row table) :
    sameKey table a b = sameKey table b a := by
  cases table
  case tasks | transfers | conflicts | taskClocks | ignorePolicyState | taskRuntime
      | taskConnections | pendingIgnorePolicies => exact sameValue_comm _ _
  all_goals
    rw [Bool.eq_iff_iff]
    simp only [sameKey, eq_comm]

/-- The value of the column `task_id`.  Two tables have none. -/
def taskColumn : ∀ table, Row table → Option Bytes
  | .schemaMigrations, _ => none
  | .tasks, row => row.taskId
  | .fileRecords, row => some row.taskId
  | .transfers, row => some row.taskId
  | .transferChunks, _ => none
  | .peerState, row => some row.taskId
  | .conflicts, row => some row.taskId
  | .versionLineage, row => some row.taskId
  | .taskClocks, row => row.taskId
  | .engineEvents, row => row.taskId
  | .ignorePolicyRevisions, row => some row.taskId
  | .ignorePolicyState, row => row.taskId
  | .taskRuntime, row => row.taskId
  | .taskConnections, row => row.taskId
  | .taskMembers, row => some row.taskId
  | .pendingIgnorePolicies, row => row.taskId

/-- `task_id … REFERENCES tasks(task_id)`. -/
def toTasks (table : TableName) (action : Action (Row table)) : Reference Row table where
  parent := .tasks
  bound row := (taskColumn table row).isSome
  refers row task := sameValue (taskColumn table row) task.taskId
  action := action

/-- `transfer_id … REFERENCES transfers(transfer_id)`. -/
def toTransfers : Reference Row .transferChunks where
  parent := .transfers
  bound _ := true
  refers chunk transfer := transfer.transferId = some chunk.transferId
  action := .noAction

/-- `FOREIGN KEY(task_id, revision) REFERENCES ignore_policy_revisions(task_id, revision)`. -/
def toRevisions : Reference Row .ignorePolicyState where
  parent := .ignorePolicyRevisions
  bound state := state.taskId.isSome
  refers state revision := state.taskId = some revision.taskId ∧ state.revision = revision.revision
  action := .noAction

/-- The references, with what `ON DELETE` says. -/
def references : ∀ table, List (Reference Row table)
  | .schemaMigrations => []
  | .tasks => []
  | .fileRecords => [toTasks _ .noAction]
  | .transfers => [toTasks _ .noAction]
  | .transferChunks => [toTransfers]
  | .peerState => [toTasks _ .noAction]
  | .conflicts => [toTasks _ .noAction]
  | .versionLineage => [toTasks _ .noAction]
  | .taskClocks => [toTasks _ .noAction]
  | .engineEvents => [toTasks _ (.setNull fun event => { event with taskId := none })]
  | .ignorePolicyRevisions => [toTasks _ .noAction]
  | .ignorePolicyState => [toTasks _ .noAction, toRevisions]
  | .taskRuntime => [toTasks _ .cascade]
  | .taskConnections => [toTasks _ .cascade]
  | .taskMembers => [toTasks _ .cascade]
  | .pendingIgnorePolicies => [toTasks _ .cascade]

def schema : Schema TableName Row where
  sameKey := sameKey
  references := references
  flat := by decide

/-! ## The rows of a task -/

/-- The row belongs to the task: it names the task, or the transfer that it names does. -/
def Belongs (db : Tables) (task : Bytes) : ∀ table, Row table → Bool
  | .transferChunks, chunk => (db .transfers).any fun transfer =>
      transfer.transferId = some chunk.transferId ∧ transfer.taskId = task
  | table, row => taskColumn table row = some task

end VeritasSync
