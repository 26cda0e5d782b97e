import VeritasSync.Storage.Folder
import Mathlib

/-!
# Reconciling a snapshot with the records

`SnapshotReconciler::Apply` is what the runtime scan runs: it compares a path-sorted snapshot with
the file records (`DiffManifest`), gives every created or changed path a new version and every
vanished one a tombstone, all in one transaction.

Both functions walk their two sorted inputs with a pair of indices.  The model walks the two
remaining lists instead, and an index that skips ahead is a `dropWhile`.

The function is modelled twice.  Here the transaction is one step that takes effect or does not;
`VeritasSync.Sync.Reconciliation` has the same writes statement by statement, and shows that this is
what they come to, whichever of them fails.
-/

set_option autoImplicit false

namespace VeritasSync

variable {H : Type} [ContentHash H]

/-! ## `DiffManifest` -/

/-- `IsSameContent`: kind, size and hash agree.  The time stamp does not count, and a file without a
hash is an exception. -/
def isSameContent (entry : SnapshotEntry H) (record : FileRecord H) : Except Error Bool :=
  if entry.isFile ≠ decide (record.kind = .file) then .ok false
  else if !entry.isFile then .ok (record.kind = .directory)
  else
    match entry.contentHash with
    | none => .error (.invalidArgument "file snapshots require a content hash")
    | some hash => .ok (entry.size = record.size && record.contentHash = some hash)

/-- `OrderedEntries`: the entries in path order, without duplicate paths. -/
def orderedEntries {α : Type} (path : α → Path) (entries : List α) : Except Error (List α) :=
  let ordered := entries.insertionSort fun a b => path a ≤ path b
  if (ordered.map path).Nodup then .ok ordered
  else .error (.invalidArgument "manifest contains duplicate paths")

/-- `sync::ManifestDiff`: what has to be recorded, and which paths are gone. -/
structure ManifestDiff (H : Type) where
  createdOrChanged : List (SnapshotEntry H)
  deletedPaths : List Path

/-- The paths `DiffManifest` reports as deleted once the snapshot is exhausted. -/
def deletedPathsOf (known : List (FileRecord H)) : List Path :=
  (known.filter fun record => record.kind ≠ .tombstone).map FileRecord.relativePath

/-- The loops of `DiffManifest`. -/
def diffEntries : Nat → List (SnapshotEntry H) → List (FileRecord H) →
    Except Error (ManifestDiff H)
  | _, scanned, [] => .ok ⟨scanned, []⟩
  | _, [], known => .ok ⟨[], deletedPathsOf known⟩
  | 0, _, _ => .ok ⟨[], []⟩
  | fuel + 1, entry :: scanned, record :: known => do
    if entry.relativePath < record.relativePath then
      let diff ← diffEntries fuel scanned (record :: known)
      pure { diff with createdOrChanged := entry :: diff.createdOrChanged }
    else if record.relativePath < entry.relativePath then
      let diff ← diffEntries fuel (entry :: scanned) known
      pure (if record.kind ≠ .tombstone then
          { diff with deletedPaths := record.relativePath :: diff.deletedPaths }
        else diff)
    else
      let same ← if record.kind = .tombstone then pure false else isSameContent entry record
      let diff ← diffEntries fuel scanned known
      pure (if same then diff
        else { diff with createdOrChanged := entry :: diff.createdOrChanged })

/-- `DiffManifest`: both lists are brought in path order, which refuses duplicates, and walked side
by side. -/
def diffManifest (snapshot : List (SnapshotEntry H)) (knownRecords : List (FileRecord H)) :
    Except Error (ManifestDiff H) := do
  let scanned ← orderedEntries SnapshotEntry.relativePath snapshot
  let known ← orderedEntries FileRecord.relativePath knownRecords
  diffEntries (scanned.length + known.length) scanned known

/-! ## `SnapshotReconciler::Apply` -/

/-- `sync::ReconcileConfig`.  `logicalClock` is what an unversioned task stamps its records with. -/
structure ReconcileConfig where
  taskId : Bytes
  originDeviceId : DeviceId
  logicalClock : Nat
  nowMs : Int

/-- `sync::ReconcileResult`: how many paths have changed and how many are gone. -/
structure ReconcileResult where
  createdOrChanged : Nat
  tombstoned : Nat
  deriving DecidableEq

/-- The kind of the record of a snapshot entry. -/
def SnapshotEntry.kind (entry : SnapshotEntry H) : FileKind :=
  if entry.isFile then .file else .directory

/-- `MakeRecord`: the record of an entry under a new version. -/
def makeRecord (entry : SnapshotEntry H) (config : ReconcileConfig) (versionId : VersionId) :
    FileRecord H :=
  { taskId := config.taskId, relativePath := entry.relativePath, kind := entry.kind
    size := entry.size, mtimeNs := entry.mtimeNs, contentHash := entry.contentHash
    versionId, originDeviceId := config.originDeviceId, logicalClock := config.logicalClock
    deletedAtMs := none }

/-- The records `Apply` is going to write, and the number of identifiers it has drawn: a new
version for a changed path, the old version with a new size or time for one that was only touched.
`known` and `changed` are what the two indices have not passed yet. -/
def upsertsOf (config : ReconcileConfig) (newId : Nat → VersionId) :
    Nat → List (FileRecord H) → List (SnapshotEntry H) → List (SnapshotEntry H) →
      List (FileRecord H) × Nat
  | used, _, _, [] => ([], used)
  | used, known, changed, entry :: snapshot =>
    let known := known.dropWhile fun record => record.relativePath < entry.relativePath
    let changed := changed.dropWhile fun c => c.relativePath < entry.relativePath
    let existing := known.head?.filter fun record => record.relativePath = entry.relativePath
    let isChanged := changed.head?.any fun c => c.relativePath = entry.relativePath
    match existing, isChanged with
    | some record, false =>
      let rest := upsertsOf config newId used known changed snapshot
      if record.size ≠ entry.size ∨ record.mtimeNs ≠ entry.mtimeNs then
        ({ record with size := entry.size, mtimeNs := entry.mtimeNs } :: rest.1, rest.2)
      else rest
    | _, _ =>
      let rest := upsertsOf config newId (used + 1) known changed snapshot
      (makeRecord entry config (newId used) :: rest.1, rest.2)

/-- A record with a new version: the next clock, the lineage row, the record. -/
def recordNewVersion (db : Database H) (parent : Option VersionId) (record : FileRecord H) :
    Except Error (Database H) := do
  let (clock, db) ← db.advanceLogicalClock 0
  let db ← db.recordCreation
    ⟨record.versionId, parent, record.relativePath, record.originDeviceId, clock⟩
  db.upsertFileRecord { record with logicalClock := clock }

/-- The body of the transaction's first loop.  `previous` finds the record a path had. -/
def reconcileUpsert (versioned : Bool) (previous : Path → Option (FileRecord H))
    (db : Database H) (record : FileRecord H) : Except Error (Database H) :=
  let old := (previous record.relativePath).map FileRecord.versionId
  if versioned ∧ old ≠ some record.versionId then recordNewVersion db old record
  else db.upsertFileRecord record

/-- The body of the transaction's second loop. -/
def reconcileDelete (versioned : Bool) (config : ReconcileConfig)
    (previous : Path → Option (FileRecord H)) (version : VersionId) (db : Database H)
    (path : Path) : Except Error (Database H) :=
  let tombstone := Database.tombstoneRecord config.taskId path version config.originDeviceId
    config.logicalClock config.nowMs
  if versioned then
    recordNewVersion db ((previous path).map FileRecord.versionId) tombstone
  else db.upsertFileRecord tombstone

/-- The transaction's first loop. -/
def reconcileUpserts (versioned : Bool) (previous : Path → Option (FileRecord H)) :
    Database H → List (FileRecord H) → Except Error (Database H)
  | db, [] => .ok db
  | db, record :: rest => do
    let db ← reconcileUpsert versioned previous db record
    reconcileUpserts versioned previous db rest

/-- The transaction's second loop, with the identifiers it draws. -/
def reconcileDeletes (versioned : Bool) (config : ReconcileConfig)
    (previous : Path → Option (FileRecord H)) (newId : Nat → VersionId) :
    Nat → Database H → List Path → Except Error (Database H × Nat)
  | used, db, [] => .ok (db, used)
  | used, db, path :: rest => do
    let db ← reconcileDelete versioned config previous (newId used) db path
    reconcileDeletes versioned config previous newId (used + 1) db rest

/-- `SnapshotReconciler::Apply`.  `versioned` says that the task's mode is bidirectional, `newId`
is the identifier generator and `used` the number of identifiers drawn from it so far. -/
def reconcile (versioned : Bool) (db : Database H) (snapshot : List (SnapshotEntry H))
    (config : ReconcileConfig) (newId : Nat → VersionId) (used : Nat) :
    Except Error ((ReconcileResult × Nat) × Database H) := do
  if config.taskId = [] ∨ config.originDeviceId = [] ∨ config.nowMs ≤ 0 then
    throw (.invalidArgument "reconciliation identity and timestamp are required")
  if !(snapshot.map SnapshotEntry.relativePath).Pairwise (· ≤ ·) then
    throw (.invalidArgument "reconciliation snapshot must be path-sorted")
  let known := db.listFileRecords
  let diff ← diffManifest snapshot known
  let result := ⟨diff.createdOrChanged.length, diff.deletedPaths.length⟩
  let (upserts, used) := upsertsOf config newId used known diff.createdOrChanged snapshot
  let db' ← reconcileUpserts versioned db.records.find db upserts
  let (db', used) ← reconcileDeletes versioned config db.records.find newId used db'
    diff.deletedPaths
  pure ((result, used), db')

/-! ## Identifiers drawn -/

omit [ContentHash H] in
theorem le_of_upsertsOf (config : ReconcileConfig) (newId : Nat → VersionId) (used : Nat)
    (known : List (FileRecord H)) (changed snapshot : List (SnapshotEntry H)) :
    used ≤ (upsertsOf config newId used known changed snapshot).2 := by
  fun_induction upsertsOf config newId used known changed snapshot with
  | case1 => exact le_rfl
  | case2 => assumption
  | case3 => assumption
  | case4 => exact (Nat.le_succ _).trans (by assumption)

omit [ContentHash H] in
theorem le_of_reconcileDeletes {versioned : Bool} {config : ReconcileConfig}
    {previous : Path → Option (FileRecord H)} {newId : Nat → VersionId} {used used' : Nat}
    {db db' : Database H} {paths : List Path}
    (h : reconcileDeletes versioned config previous newId used db paths = .ok (db', used')) :
    used ≤ used' := by
  induction paths generalizing used db with
  | nil =>
    cases h
    exact le_rfl
  | cons path paths ih =>
    obtain ⟨db1, -, h⟩ := ok_of_bind h
    exact (Nat.le_succ used).trans (ih h)

/-- The stages of a reconciliation. -/
theorem reconcile_eq_ok {versioned : Bool} {db db' : Database H}
    {snapshot : List (SnapshotEntry H)} {config : ReconcileConfig} {newId : Nat → VersionId}
    {used used' : Nat} {result : ReconcileResult}
    (h : reconcile versioned db snapshot config newId used = .ok ((result, used'), db')) :
    ∃ diff db1, diffManifest snapshot db.listFileRecords = .ok diff ∧
      reconcileUpserts versioned db.records.find db (upsertsOf config newId used db.listFileRecords
        diff.createdOrChanged snapshot).1 = .ok db1 ∧
      reconcileDeletes versioned config db.records.find newId (upsertsOf config newId used
        db.listFileRecords diff.createdOrChanged snapshot).2 db1 diff.deletedPaths =
          .ok (db', used') := by
  rw [reconcile] at h
  split at h
  · cases h
  split at h
  · cases h
  obtain ⟨diff, hdiff, h⟩ := ok_of_bind h
  obtain ⟨db1, hupserts, h⟩ := ok_of_bind h
  obtain ⟨⟨db2, used2⟩, hdeletes, h⟩ := ok_of_bind h
  cases h
  exact ⟨diff, db1, hdiff, hupserts, hdeletes⟩

theorem le_of_reconcile {versioned : Bool} {db db' : Database H}
    {snapshot : List (SnapshotEntry H)} {config : ReconcileConfig} {newId : Nat → VersionId}
    {used used' : Nat} {result : ReconcileResult}
    (h : reconcile versioned db snapshot config newId used = .ok ((result, used'), db')) :
    used ≤ used' := by
  obtain ⟨diff, db1, -, -, hdeletes⟩ := reconcile_eq_ok h
  exact (le_of_upsertsOf config newId used _ _ _).trans (le_of_reconcileDeletes hdeletes)

end VeritasSync
