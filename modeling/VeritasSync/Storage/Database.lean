import VeritasSync.Common.Path
import VeritasSync.Lib.OrdMap
import VeritasSync.Lib.Climb

/-!
# The durable state of one task

`storage::Database` is SQLite behind a set of functions whose every query is filtered by a
`task_id`.  A `BidirectionalSyncNode` only ever passes its own, so the model keeps the rows of that
one task: `Database` has a field for each table the synchronisation code touches, and a function
for each member function it calls, under the same name and with the same checks.

A member function is one statement or one transaction, so it either succeeds as a whole or throws
and changes nothing: its model returns `Except Error` of the new database.  Tables with a primary
key that the code reads in key order are `OrdMap`s.

`minted` is the one field without a counterpart in the schema.  It records, for every version this
device has created, the clock, origin, parent and path it was created with; no function of the
engine reads it.

This is the middle one of three views of the same data.  Below it are the tables as SQLite has them,
with all tasks in them, nullable columns, texts that are cut at a zero byte, and statements that can
fail; `VeritasSync.Storage.TaskView` shows that a call that returns does there what the function of
the same name does here.  Above it are the nodes, which see nothing but these functions.  The proofs
about synchronization never mention a table, and the proofs about the tables never mention a node.

Most lemmas here are of one form: if the function returned, then these checks passed and this is the
new database.  They are all that is ever used of a writer.
-/

set_option autoImplicit false

namespace VeritasSync

/-- A version identifier (a UUID text). -/
abbrev VersionId := Bytes

/-- A device identifier.  Nothing is assumed about it but that it is not empty where a function asks
for that. -/
abbrev DeviceId := Bytes

/-- A transfer identifier: sixteen random bytes, read as a number. -/
abbrev TransferId := Nat

/-- `storage::FileKind`.  A tombstone is what the record of a file or directory becomes when the
path is gone. -/
inductive FileKind where
  | file
  | directory
  | tombstone
  deriving DecidableEq, Repr

/-- `storage::FileRecord`.  An absent `contentHash` is the empty byte vector. -/
structure FileRecord (H : Type) where
  taskId : Bytes
  relativePath : Path
  kind : FileKind
  size : Nat
  mtimeNs : Int
  contentHash : Option H
  versionId : VersionId
  originDeviceId : DeviceId
  logicalClock : Nat
  deletedAtMs : Option Int
  deriving DecidableEq

/-- `storage::VersionLineage`, for the one task. -/
structure VersionLineage where
  versionId : VersionId
  parentVersionId : Option VersionId
  deriving DecidableEq

/-- The state column of the `transfers` table. -/
inductive TransferState where
  | active
  | completed
  | failed
  | cancelled
  deriving DecidableEq, Repr

/-- The direction column of the `transfers` table. -/
inductive TransferDirection where
  | upload
  | download
  deriving DecidableEq, Repr

/-- `storage::TransferRecord` together with the transfer's rows of `transfer_chunks`. -/
structure TransferRecord (H : Type) where
  transferId : TransferId
  peerDeviceId : DeviceId
  direction : TransferDirection
  fileHash : H
  state : TransferState
  createdAtMs : Int
  updatedAtMs : Int
  relativePath : Path
  /-- The indices of the chunks marked completed, in index order. -/
  completedChunks : List Nat
  deriving DecidableEq

/-- `storage::ConflictRecord`: which path two versions fought for, which of them won, and where the
other one is kept. -/
structure ConflictRecord where
  conflictId : Bytes
  originalPath : Path
  winningVersionId : VersionId
  conflictPath : Path
  state : Bytes
  createdAtMs : Int
  deriving DecidableEq

/-- Who wrote a rule text. -/
inductive PolicySource where
  | manual
  | ai
  | undo
  | other (text : Bytes)
  deriving DecidableEq

/-- The source is one the schema's `CHECK` admits. -/
def PolicySource.known : PolicySource → Bool
  | .other _ => false
  | _ => true

/-- The state column of `pending_ignore_policies`. -/
inductive PolicyState where
  | proposed
  | prepared
  | committed
  | applied
  deriving DecidableEq, Repr

/-- `storage::PendingIgnorePolicy`: the proposal of new rules that is under negotiation, as it
survives a crash. -/
structure PendingIgnorePolicy (H : Type) where
  proposalId : Bytes
  originDeviceId : DeviceId
  baseHash : H
  rules : Bytes
  source : PolicySource
  state : PolicyState
  deriving DecidableEq

/-- `storage::IgnorePolicyRevision`: one entry in the history of a task's rules. -/
structure IgnorePolicyRevision (H : Type) where
  revision : Nat
  content : Bytes
  contentHash : H
  source : PolicySource
  createdAtMs : Int
  deriving DecidableEq

/-- What a version was created with (see `Database.minted`). -/
structure Creation where
  versionId : VersionId
  parentVersionId : Option VersionId
  relativePath : Path
  originDeviceId : DeviceId
  logicalClock : Nat
  deriving DecidableEq

/-- The rows of one task. -/
structure Database (H : Type) where
  /-- `file_records`, by path. -/
  records : OrdMap Path (FileRecord H)
  /-- `version_lineage`, by version. -/
  lineage : OrdMap VersionId (Option VersionId)
  /-- `task_clocks`; a missing row reads as zero. -/
  logicalClock : Nat
  /-- `conflicts`, in insertion order. -/
  conflicts : List ConflictRecord
  /-- `transfers` with their `transfer_chunks`, in insertion order. -/
  transfers : List (TransferRecord H)
  /-- `pending_ignore_policies`. -/
  pendingPolicy : Option (PendingIgnorePolicy H)
  /-- `ignore_policy_revisions`, oldest first. -/
  policyRevisions : List (IgnorePolicyRevision H)
  /-- The versions created on this device, oldest first. -/
  minted : List Creation
  deriving DecidableEq

namespace Database

variable {H : Type}

/-- The rows of a task that has just been created. -/
def empty : Database H :=
  { records := OrdMap.empty, lineage := OrdMap.empty, logicalClock := 0, conflicts := [],
    transfers := [], pendingPolicy := none, policyRevisions := [], minted := [] }

/-- `INT64_MAX`, the largest value of an SQLite integer column. -/
def int64Max : Nat := 2 ^ 63 - 1

/-! ## File records

The one table that everything else is about.  A record is stored under its path, and a file that is
gone keeps its record as a tombstone; so the table has one row for each path that has ever been
synchronized, and the version in it is the last one known. -/

/-- `ValidateRelativePath`: the paths under which a record may be stored.  They are relative, use
`/`, and have no component that is empty or leads elsewhere. -/
def validateRelativePath (relativePath : Path) : Except Error Unit :=
  if relativePath = [] ∨ relativePath.head? = some slash ∨ '\\'.toUInt8 ∈ relativePath ∨
      ':'.toUInt8 ∈ relativePath then
    .error (.invalidArgument "file record path must be normalized and task-relative")
  else if (components relativePath).any fun c => c = [] ∨ c = [dot] ∨ c = [dot, dot] then
    .error (.invalidArgument "file record path must not traverse directories")
  else .ok ()

/-- A path the database accepts ends in a proper name. -/
theorem fileName_of_validateRelativePath {p : Path} (h : validateRelativePath p = .ok ()) :
    fileName p ≠ [] ∧ fileName p ≠ [dot] ∧ fileName p ≠ [dot, dot] := by
  rw [validateRelativePath] at h
  split at h
  · cases h
  · split at h
    · cases h
    · rename_i hany
      have hname := List.any_eq_false.mp (Bool.not_eq_true _ ▸ hany) _ (fileName_mem_components p)
      simpa only [decide_eq_true_eq, not_or] using hname

/-- `ValidateFileRecord`: what a record must have to be stored, whoever made it. -/
def validateFileRecord (record : FileRecord H) : Except Error Unit := do
  if record.taskId = [] ∨ record.versionId = [] ∨ record.originDeviceId = [] then
    throw (.invalidArgument "file record identity fields are required")
  validateRelativePath record.relativePath
  if record.kind = .file ∧ record.contentHash.isNone then
    throw (.invalidArgument "file records require a content hash")
  if record.kind = .tombstone ∧ record.deletedAtMs.isNone then
    throw (.invalidArgument "tombstones require a deletion timestamp")
  if record.kind ≠ .tombstone ∧ record.deletedAtMs.isSome then
    throw (.invalidArgument "live records must not have a deletion timestamp")

theorem validateFileRecord_eq_ok {record : FileRecord H} (h : validateFileRecord record = .ok ()) :
    record.taskId ≠ [] ∧ record.versionId ≠ [] ∧ record.originDeviceId ≠ [] ∧
      validateRelativePath record.relativePath = .ok () := by
  rw [validateFileRecord] at h
  split at h
  · cases h
  · rename_i hid
    cases hpath : validateRelativePath record.relativePath with
    | error e => rw [hpath] at h; cases h
    | ok u =>
      rw [not_or, not_or] at hid
      exact ⟨hid.1, hid.2.1, hid.2.2, rfl⟩

/-- `Database::UpsertFileRecord`: the record replaces the one at its path, if it passes the
checks. -/
def upsertFileRecord (db : Database H) (record : FileRecord H) : Except Error (Database H) := do
  validateFileRecord record
  pure { db with records := db.records.insert record.relativePath record }

theorem upsertFileRecord_eq_ok {db db' : Database H} {record : FileRecord H}
    (h : db.upsertFileRecord record = .ok db') :
    validateFileRecord record = .ok () ∧
      db' = { db with records := db.records.insert record.relativePath record } := by
  rw [upsertFileRecord] at h
  cases hval : validateFileRecord record with
  | error e => rw [hval] at h; cases h
  | ok u => rw [hval] at h; cases h; exact ⟨rfl, rfl⟩

/-- The record `Database::RecordTombstone` writes. -/
def tombstoneRecord (taskId : Bytes) (relativePath : Path) (versionId : VersionId)
    (originDeviceId : DeviceId) (logicalClock : Nat) (deletedAtMs : Int) : FileRecord H :=
  { taskId, relativePath, kind := .tombstone, size := 0, mtimeNs := 0, contentHash := none,
    versionId, originDeviceId, logicalClock, deletedAtMs := some deletedAtMs }

/-- `Database::RecordTombstone`: the record of the path becomes a tombstone, under a version of its
own. -/
def recordTombstone (db : Database H) (taskId : Bytes) (relativePath : Path)
    (versionId : VersionId) (originDeviceId : DeviceId) (logicalClock : Nat) (deletedAtMs : Int) :
    Except Error (Database H) :=
  db.upsertFileRecord
    (tombstoneRecord taskId relativePath versionId originDeviceId logicalClock deletedAtMs)

/-- `Database::FindFileRecord`.  It checks the path first, so a path that no record can have is an
exception. -/
def findFileRecord (db : Database H) (relativePath : Path) :
    Except Error (Option (FileRecord H)) := do
  validateRelativePath relativePath
  pure (db.records.find relativePath)

/-- `Database::ListFileRecords`: `ORDER BY relative_path`. -/
def listFileRecords (db : Database H) : List (FileRecord H) := db.records.entries.map Prod.snd

theorem mem_listFileRecords {db : Database H} {r : FileRecord H} :
    r ∈ db.listFileRecords ↔ ∃ p, db.records.find p = some r := by
  simp only [listFileRecords, List.mem_map, OrdMap.find_eq_some_iff, Prod.exists,
    exists_eq_right]

/-! ## Version lineage

Each version has a parent, or none.  The rows come from this device and from the manifests of its
peers, in whatever order these arrive, so the table is not a forest until somebody proves it:
parents may be missing, and reports may contradict one another.  The first row of a version
stays. -/

/-- `Database::FindVersionLineage`: the row of a version, if there is one. -/
def findVersionLineage (db : Database H) (versionId : VersionId) :
    Except Error (Option VersionLineage) :=
  if versionId = [] then .error (.invalidArgument "version lineage lookup is invalid")
  else .ok ((db.lineage.find versionId).map fun parent => ⟨versionId, parent⟩)

/-- `Database::RecordVersionLineage`.  A version that is known already keeps its parent; a report
that names another one is refused. -/
def recordVersionLineage (db : Database H) (lineage : VersionLineage) :
    Except Error (Database H) := do
  if lineage.versionId = [] ∨ lineage.parentVersionId = some [] ∨
      lineage.parentVersionId = some lineage.versionId then
    throw (.invalidArgument "version lineage is invalid")
  match ← db.findVersionLineage lineage.versionId with
  | some existing =>
    if existing.parentVersionId ≠ lineage.parentVersionId then
      throw (.invalidArgument "version lineage parent is immutable")
    pure db
  | none =>
    pure { db with lineage := db.lineage.insert lineage.versionId lineage.parentVersionId }

/-- A row is only ever added, and a version that has one keeps it. -/
theorem recordVersionLineage_eq_ok {db db' : Database H} {row : VersionLineage}
    (h : db.recordVersionLineage row = .ok db') :
    row.versionId ≠ [] ∧ row.parentVersionId ≠ some row.versionId ∧
      (∀ parent, db.lineage.find row.versionId = some parent → parent = row.parentVersionId) ∧
      ∃ lineage, db' = { db with lineage := lineage } ∧
        ∀ v, lineage.find v
          = if v = row.versionId then some row.parentVersionId else db.lineage.find v := by
  rw [recordVersionLineage] at h
  split at h
  · cases h
  · rename_i hrow
    rw [not_or, not_or] at hrow
    rw [findVersionLineage, if_neg hrow.1] at h
    refine ⟨hrow.1, hrow.2.2, ?_⟩
    cases hfind : db.lineage.find row.versionId with
    | none =>
      rw [hfind] at h
      cases h
      exact ⟨nofun, _, rfl, fun v => OrdMap.find_insert _ _ _ _⟩
    | some parent =>
      rw [hfind] at h
      by_cases hp : parent = row.parentVersionId
      · subst hp
        simp only [Option.map_some, bind, Except.bind, ne_eq, not_true_eq_false, if_false] at h
        cases h
        refine ⟨fun _ heq => (Option.some.inj heq).symm, _, rfl, fun v => ?_⟩
        split
        · rename_i hv
          rw [hv, hfind]
        · rfl
      · simp only [Option.map_some, bind, Except.bind, ne_eq, hp, not_false_eq_true, if_true] at h
        cases h

/-- `RecordVersionLineage` of a version this device has just created. -/
def recordCreation (db : Database H) (creation : Creation) : Except Error (Database H) := do
  let db ← db.recordVersionLineage ⟨creation.versionId, creation.parentVersionId⟩
  pure { db with minted := db.minted ++ [creation] }

theorem recordCreation_eq_ok {db db' : Database H} {c : Creation}
    (h : db.recordCreation c = .ok db') :
    c.versionId ≠ [] ∧ ∃ lineage,
      db' = { db with lineage := lineage, minted := db.minted ++ [c] } ∧
        ∀ v, lineage.find v
          = if v = c.versionId then some c.parentVersionId else db.lineage.find v := by
  rw [recordCreation] at h
  cases hrow : db.recordVersionLineage ⟨c.versionId, c.parentVersionId⟩ with
  | error e => rw [hrow] at h; cases h
  | ok d =>
    obtain ⟨hne, -, -, lineage, rfl, hfind⟩ := recordVersionLineage_eq_ok hrow
    rw [hrow] at h
    cases h
    exact ⟨hne, lineage, rfl, hfind⟩

/-- `Database::ListVersionLineage`: `ORDER BY version_id`. -/
def listVersionLineage (db : Database H) : List VersionLineage :=
  db.lineage.entries.map fun row => ⟨row.1, row.2⟩

/-- One step of the ancestry walk: the parent in the version's row, if it has a row and the row
has a parent. -/
def parentOf (db : Database H) (versionId : VersionId) : Option VersionId :=
  (db.lineage.find versionId).join

/-- The number of versions `IsVersionAncestor` looks at before it gives up. -/
@[irreducible] def ancestryLimit : Nat := 100000

/-- `Database::IsVersionAncestor`. -/
def isVersionAncestor (db : Database H) (ancestor descendant : VersionId) : Except Error Bool :=
  if ancestor = [] ∨ descendant = [] then
    .error (.invalidArgument "version ancestry lookup is invalid")
  else
    match Climb.climb db.parentOf ancestor ancestryLimit descendant with
    | some answer => .ok answer
    | none => .error (.runtimeError "version ancestry depth exceeds limit")

/-- On chains the walk covers, `IsVersionAncestor` decides the ancestry relation. -/
theorem isVersionAncestor_of_ends {db : Database H} {ancestor descendant : VersionId}
    (ha : ancestor ≠ []) (hd : descendant ≠ [])
    (hends : Climb.Ends db.parentOf ancestryLimit descendant) :
    ∃ answer, db.isVersionAncestor ancestor descendant = .ok answer ∧
      (answer = true ↔ Climb.Above db.parentOf descendant ancestor) := by
  obtain ⟨answer, hclimb⟩ :=
    Option.isSome_iff_exists.mp (Climb.climb_isSome_of_ends (a := ancestor) hends)
  refine ⟨answer, ?_, ?_⟩
  · rw [isVersionAncestor, if_neg (not_or.mpr ⟨ha, hd⟩), hclimb]
  · cases answer with
    | true => exact iff_of_true rfl (Climb.above_of_climb hclimb)
    | false => exact iff_of_false Bool.false_ne_true (Climb.not_above_of_climb hclimb)

/-- An answer of `IsVersionAncestor` is right about the table it was computed from. -/
theorem isVersionAncestor_eq_ok {db : Database H} {ancestor descendant : VersionId}
    {answer : Bool} (h : db.isVersionAncestor ancestor descendant = .ok answer) :
    answer = true ↔ Climb.Above db.parentOf descendant ancestor := by
  rw [isVersionAncestor] at h
  split at h
  · cases h
  split at h
  · rename_i _ b hclimb
    cases h
    cases answer with
    | true => exact iff_of_true rfl (Climb.above_of_climb hclimb)
    | false => exact iff_of_false Bool.false_ne_true (Climb.not_above_of_climb hclimb)
  · cases h

theorem isVersionAncestor_eq_true_iff {db : Database H} {ancestor descendant : VersionId}
    (ha : ancestor ≠ []) (hd : descendant ≠ []) :
    db.isVersionAncestor ancestor descendant = .ok true ↔
      Climb.climb db.parentOf ancestor ancestryLimit descendant = some true := by
  rw [isVersionAncestor, if_neg (not_or.mpr ⟨ha, hd⟩)]
  split
  · rename_i answer hclimb
    rw [hclimb, Except.ok.injEq, Option.some.injEq]
  · rename_i hclimb
    rw [hclimb]
    exact iff_of_false (by simp) (by simp)

theorem parentOf_eq_some {db : Database H} {v u : VersionId} :
    db.parentOf v = some u ↔ db.lineage.find v = some (some u) := Option.join_eq_some_iff

/-! ## The logical clock -/

/-- `Database::AdvanceLogicalClock`: `max(local, observed) + 1`. -/
def advanceLogicalClock (db : Database H) (observedRemoteClock : Nat) :
    Except Error (Nat × Database H) :=
  if observedRemoteClock > int64Max then
    .error (.invalidArgument "logical clock arguments are invalid")
  else
    let base := max db.logicalClock observedRemoteClock
    if base = int64Max then .error (.overflowError "logical clock overflow")
    else .ok (base + 1, { db with logicalClock := base + 1 })

theorem advanceLogicalClock_eq_ok {db db' : Database H} {observed clock : Nat}
    (h : db.advanceLogicalClock observed = .ok (clock, db')) :
    clock = max db.logicalClock observed + 1 ∧ db' = { db with logicalClock := clock } := by
  simp only [advanceLogicalClock] at h
  split at h
  · cases h
  · split at h
    · cases h
    · cases h
      exact ⟨rfl, rfl⟩

/-! ## Conflicts -/

/-- `Database::RecordConflict`. -/
def recordConflict (db : Database H) (conflict : ConflictRecord) : Except Error (Database H) := do
  if conflict.conflictId = [] ∨ conflict.originalPath = [] ∨ conflict.winningVersionId = [] ∨
      conflict.conflictPath = [] ∨ conflict.state = [] ∨ conflict.createdAtMs ≤ 0 then
    throw (.invalidArgument "conflict record is invalid")
  validateRelativePath conflict.originalPath
  validateRelativePath conflict.conflictPath
  pure { db with conflicts := db.conflicts ++ [conflict] }

theorem recordConflict_eq_ok {db db' : Database H} {conflict : ConflictRecord}
    (h : db.recordConflict conflict = .ok db') :
    db' = { db with conflicts := db.conflicts ++ [conflict] } := by
  rw [recordConflict] at h
  split at h
  · cases h
  · cases ho : validateRelativePath conflict.originalPath with
    | error e => rw [ho] at h; cases h
    | ok u =>
      cases hc : validateRelativePath conflict.conflictPath with
      | error e => rw [ho, hc] at h; cases h
      | ok u => rw [ho, hc] at h; cases h; rfl

/-! ## Transfers

A transfer and the marks of its chunks are two tables of the schema.  Nothing ever reads the marks
of a transfer without the transfer, so they are one record here, with the marks as an increasing
list.  The index of the table and the order of `SELECT` are both in that order. -/

/-- `ValidateTransfer`. -/
def validateTransfer (transfer : TransferRecord H) : Except Error Unit := do
  if transfer.peerDeviceId = [] ∨ transfer.transferId = 0 ∨ transfer.createdAtMs ≤ 0 ∨
      transfer.updatedAtMs ≤ 0 then
    throw (.invalidArgument "transfer fields are invalid")
  if transfer.relativePath ≠ [] then validateRelativePath transfer.relativePath

/-- `Database::CreateTransfer`.  The identifier is the table's primary key. -/
def createTransfer (db : Database H) (transfer : TransferRecord H) :
    Except Error (Database H) := do
  validateTransfer transfer
  if db.transfers.any fun t => t.transferId = transfer.transferId then
    throw (.runtimeError "insert transfer")
  pure { db with transfers := db.transfers ++ [transfer] }

theorem createTransfer_eq_ok {db db' : Database H} {transfer : TransferRecord H}
    (h : db.createTransfer transfer = .ok db') :
    (∀ t ∈ db.transfers, t.transferId ≠ transfer.transferId) ∧
      db' = { db with transfers := db.transfers ++ [transfer] } := by
  rw [createTransfer] at h
  cases hval : validateTransfer transfer with
  | error e => rw [hval] at h; cases h
  | ok u =>
    rw [hval] at h
    simp only [bind, Except.bind] at h
    split at h
    · cases h
    · rename_i hany
      cases h
      exact ⟨by simpa using hany, rfl⟩

/-- The row of a transfer. -/
def findTransfer (db : Database H) (transferId : TransferId) : Option (TransferRecord H) :=
  db.transfers.find? fun t => t.transferId = transferId

/-- Rewrite the row of a transfer; there has to be one. -/
def updateTransfer (db : Database H) (transferId : TransferId)
    (f : TransferRecord H → TransferRecord H) : Except Error (Database H) :=
  if db.transfers.any fun t => t.transferId = transferId then
    .ok { db with
      transfers := db.transfers.map fun t => if t.transferId = transferId then f t else t }
  else .error (.invalidArgument "transfer does not exist")

theorem updateTransfer_eq_ok {db db' : Database H} {transferId : TransferId}
    {f : TransferRecord H → TransferRecord H} (h : db.updateTransfer transferId f = .ok db') :
    db' = { db with
      transfers := db.transfers.map fun t => if t.transferId = transferId then f t else t } := by
  rw [updateTransfer] at h
  split at h
  · cases h; rfl
  · cases h

/-- The later of two transfers, the first one on a tie: `ORDER BY created_at_ms DESC`. -/
def laterTransfer (a b : TransferRecord H) : TransferRecord H :=
  if a.createdAtMs < b.createdAtMs then b else a

/-- The transfers of a list that `FindActiveDownloadTransfer` selects from. -/
def activeDownloads [DecidableEq H] (peerDeviceId : DeviceId) (relativePath : Path)
    (fileHash : H) (transfers : List (TransferRecord H)) : List (TransferRecord H) :=
  transfers.filter fun t =>
    t.peerDeviceId = peerDeviceId ∧ t.relativePath = relativePath ∧ t.fileHash = fileHash ∧
      t.direction = .download ∧ t.state = .active

/-- `Database::FindActiveDownloadTransfer`. -/
def findActiveDownloadTransfer [DecidableEq H] (db : Database H) (peerDeviceId : DeviceId)
    (relativePath : Path) (fileHash : H) : Except Error (Option (TransferRecord H)) := do
  if peerDeviceId = [] then throw (.invalidArgument "active transfer lookup is invalid")
  validateRelativePath relativePath
  match activeDownloads peerDeviceId relativePath fileHash db.transfers with
  | [] => pure none
  | t :: rest => pure (some (rest.foldl laterTransfer t))

/-- `INSERT ... ON CONFLICT DO UPDATE SET completed=1` of one index, keeping index order. -/
def insertIndex (index : Nat) : List Nat → List Nat
  | [] => [index]
  | i :: rest =>
    if index < i then index :: i :: rest
    else if index = i then i :: rest
    else i :: insertIndex index rest

/-- `Database::MarkTransferChunksCompleted`. -/
def markTransferChunksCompleted (db : Database H) (transferId : TransferId)
    (chunkIndices : List Nat) (updatedAtMs : Int) : Except Error (Database H) :=
  if chunkIndices = [] ∨ updatedAtMs ≤ 0 ∨ chunkIndices.any fun i => i > int64Max then
    .error (.invalidArgument "transfer chunk fields are invalid")
  else
    db.updateTransfer transferId fun t =>
      { t with
        completedChunks := chunkIndices.foldl (fun done i => insertIndex i done) t.completedChunks
        updatedAtMs := updatedAtMs }

theorem markTransferChunksCompleted_eq_ok {db db' : Database H} {transferId : TransferId}
    {indices : List Nat} {now : Int}
    (h : db.markTransferChunksCompleted transferId indices now = .ok db') :
    ∃ transfers, db' = { db with transfers := transfers } := by
  rw [markTransferChunksCompleted] at h
  split at h
  · cases h
  · exact ⟨_, updateTransfer_eq_ok h⟩

/-- `Database::CompletedTransferChunks`: `ORDER BY chunk_index`. -/
def completedTransferChunks (db : Database H) (transferId : TransferId) : List Nat :=
  ((db.findTransfer transferId).map TransferRecord.completedChunks).getD []

theorem mem_insertIndex {index i : Nat} {done : List Nat} :
    i ∈ insertIndex index done ↔ i = index ∨ i ∈ done := by
  induction done with
  | nil => simp [insertIndex]
  | cons k rest ih =>
    rw [insertIndex]
    split
    · simp
    · split
      · rename_i heq
        simp [heq]
      · rw [List.mem_cons, ih, List.mem_cons, or_left_comm]

/-- The marks stay in index order, without duplicates. -/
theorem pairwise_insertIndex {index : Nat} {done : List Nat} (h : done.Pairwise (· < ·)) :
    (insertIndex index done).Pairwise (· < ·) := by
  induction done with
  | nil => simp [insertIndex]
  | cons k rest ih =>
    obtain ⟨hhead, htail⟩ := List.pairwise_cons.mp h
    rw [insertIndex]
    split
    · rename_i hlt
      refine List.pairwise_cons.mpr ⟨fun i hi => ?_, h⟩
      rcases List.mem_cons.mp hi with rfl | hi
      · exact hlt
      · exact lt_trans hlt (hhead i hi)
    · split
      · exact h
      · refine List.pairwise_cons.mpr ⟨fun i hi => ?_, ih htail⟩
        rcases mem_insertIndex.mp hi with rfl | hi
        · omega
        · exact hhead i hi

theorem foldl_insertIndex (indices : List Nat) {done : List Nat} (h : done.Pairwise (· < ·)) :
    (indices.foldl (fun done i => insertIndex i done) done).Pairwise (· < ·) ∧
      ∀ i, i ∈ indices.foldl (fun done i => insertIndex i done) done ↔ i ∈ indices ∨ i ∈ done := by
  induction indices generalizing done with
  | nil => exact ⟨h, by simp⟩
  | cons k rest ih =>
    have hinsert : (insertIndex k done).Pairwise (· < ·) := pairwise_insertIndex h
    obtain ⟨hsorted, hmem⟩ := ih hinsert
    refine ⟨hsorted, fun i => ?_⟩
    rw [List.foldl_cons, hmem, mem_insertIndex, List.mem_cons, or_left_comm, or_assoc]

/-- Rewriting the row of a transfer leaves every other row alone. -/
theorem updateTransfer_spec {db : Database H} {transferId : TransferId} {t : TransferRecord H}
    {f : TransferRecord H → TransferRecord H} (ht : db.findTransfer transferId = some t)
    (hf : ∀ t, (f t).transferId = t.transferId) :
    ∃ transfers, db.updateTransfer transferId f = .ok { db with transfers } ∧
      ∀ id, { db with transfers }.findTransfer id =
        if id = transferId then some (f t) else db.findTransfer id := by
  rw [findTransfer] at ht
  have hkey : t.transferId = transferId := by simpa using List.find?_some ht
  have hany : db.transfers.any (fun t => t.transferId = transferId) = true := by
    rw [List.any_eq_true]
    exact ⟨t, List.mem_of_find?_eq_some ht, decide_eq_true hkey⟩
  refine ⟨_, by rw [updateTransfer, if_pos hany], fun id => ?_⟩
  have hsame : ((fun t : TransferRecord H => decide (t.transferId = id)) ∘
      fun t => if t.transferId = transferId then f t else t) =
        fun t => decide (t.transferId = id) := by
    funext t
    rw [Function.comp]
    split
    · rw [hf]
    · rfl
  rw [findTransfer, List.find?_map, hsame]
  by_cases hid : id = transferId
  · rw [if_pos hid, hid, ht, Option.map_some, if_pos hkey]
  · rw [if_neg hid, findTransfer]
    cases hfind : db.transfers.find? fun t => t.transferId = id with
    | none => rfl
    | some r =>
      have hr : r.transferId = id := by simpa using List.find?_some hfind
      rw [Option.map_some, if_neg (hr ▸ hid)]

/-- `Database::UpdateTransferState`. -/
def updateTransferState (db : Database H) (transferId : TransferId) (state : TransferState)
    (updatedAtMs : Int) : Except Error (Database H) :=
  if updatedAtMs ≤ 0 then .error (.invalidArgument "transfer state is invalid")
  else db.updateTransfer transferId fun t => { t with state := state, updatedAtMs := updatedAtMs }

theorem updateTransferState_eq_ok {db db' : Database H} {transferId : TransferId}
    {state : TransferState} {now : Int}
    (h : db.updateTransferState transferId state now = .ok db') :
    ∃ transfers, db' = { db with transfers := transfers } := by
  rw [updateTransferState] at h
  split at h
  · cases h
  · exact ⟨_, updateTransfer_eq_ok h⟩

/-! ## Ignore policies -/

/-- `Database::SavePendingIgnorePolicy`. -/
def savePendingIgnorePolicy (db : Database H) (policy : PendingIgnorePolicy H) : Database H :=
  { db with pendingPolicy := some policy }

/-- `Database::FindPendingIgnorePolicy`. -/
def findPendingIgnorePolicy (db : Database H) : Option (PendingIgnorePolicy H) := db.pendingPolicy

/-- `Database::ClearPendingIgnorePolicy`. -/
def clearPendingIgnorePolicy (db : Database H) : Database H := { db with pendingPolicy := none }

/-- `Database::RecordIgnorePolicyRevision`: the next revision number and the row it gets. -/
def recordIgnorePolicyRevision (db : Database H) (content : Bytes) (contentHash : H)
    (source : PolicySource) (createdAtMs : Int) :
    Except Error (IgnorePolicyRevision H × Database H) :=
  if content.length > 16 * 1024 ∨ !source.known ∨ createdAtMs ≤ 0 then
    .error (.invalidArgument "ignore policy revision is invalid")
  else
    let revision := ((db.policyRevisions.map IgnorePolicyRevision.revision).foldl max 0) + 1
    let recorded := { revision, content, contentHash, source, createdAtMs }
    .ok (recorded, { db with policyRevisions := db.policyRevisions ++ [recorded] })

/-- `Database::CurrentIgnorePolicyRevision`: the row the state row points at, which is the one
recorded last. -/
def currentIgnorePolicyRevision (db : Database H) : Option (IgnorePolicyRevision H) :=
  db.policyRevisions.getLast?

end Database

end VeritasSync
