import VeritasSync.Sync.Node

/-!
# Recording local changes

The functions that look at the folder and record what the user did: `RefreshLocal` of the node, the
runtime's own scan, and `Start`, which runs the first of the former.  `IgnorePolicy::Synchronize`
and `IgnorePolicy::Apply` are here too: they keep the history of the rule file.

`RefreshLocal` walks the snapshot and the records, both in path order, with one index each; the
model keeps what the index has not passed yet.

There are three ways to scan a task, and they are three functions in the source.  The node refreshes
itself when it starts or is told to; the runtime scans when the watcher has reported something; and
a command can scan a task for which no runtime is running.  The last two go through
`SnapshotReconciler::Apply`, and only the first two know that conflict copies are not to be
recorded.
-/

set_option autoImplicit false

namespace VeritasSync

namespace Node

variable {H : Type} [ContentHash H]

/-! ## `IgnorePolicy` -/

/-- `IgnorePolicy::Synchronize`: the current revision, recorded if the file differs from it. -/
def synchronizePolicy : NodeM H (IgnorePolicyRevision H) := do
  let rules ← Exec.check fun n => n.folder.readRules
  let n ← Exec.state
  match n.db.currentIgnorePolicyRevision with
  | some current =>
    if current.contentHash ≠ blake3 rules ∨ current.content ≠ rules then
      dbGet fun db => db.recordIgnorePolicyRevision rules (blake3 rules) .manual n.nowMs
    else pure current
  | none => dbGet fun db => db.recordIgnorePolicyRevision rules (blake3 rules) .manual n.nowMs

/-- `IgnorePolicy::Apply`: the file gets the new text, and then the history a revision. -/
def applyPolicy (expectedHash : H) (rules : Bytes) (source : PolicySource) : NodeM H Unit := do
  Exec.check fun _ => IgnoreRules.validate rules
  if !source.known then Exec.raise (.invalidArgument "ignore policy source is invalid")
  else
    let current ← synchronizePolicy
    if expectedHash ≠ current.contentHash then
      Exec.raise (.invalidArgument "ignore policy changed; refresh before applying")
    else if rules = current.content then pure ()
    else
      folderDo fun folder => .ok { folder with rules := rules }
      let n ← Exec.state
      let _ ← dbGet fun db => db.recordIgnorePolicyRevision rules (blake3 rules) source n.nowMs

/-- The rule file of a decided proposal, put in place unless it is there already. -/
def installPolicy (policy : PendingIgnorePolicy H) (currentHash : H) : NodeM H Unit :=
  if currentHash ≠ blake3 policy.rules then
    applyPolicy policy.baseHash policy.rules policy.source
  else do
    -- a crash after the file was replaced and before the revision was recorded
    let _ ← synchronizePolicy

/-- `ApplyCommittedPolicy`: the rules of the proposal come into force.  After a crash the file may
have them already. -/
def applyCommittedPolicy (policy : PendingIgnorePolicy H) : NodeM H Unit := do
  let currentHash ← Exec.check rulesHash
  installPolicy policy currentHash
  Exec.update fun n => { n with policyHash := some (blake3 policy.rules) }

/-! ## Local changes -/

/-- `SameSnapshot`: kind, size and hash agree.  The time stamp does not count. -/
def sameSnapshot (entry : SnapshotEntry H) (record : FileRecord H) : Bool :=
  if entry.kind ≠ record.kind ∨ entry.size ≠ record.size then false
  else if entry.kind = .directory then true
  else entry.contentHash.isSome && record.contentHash = entry.contentHash

/-- The clock, the identifier and the lineage row of a new version: what every branch of
`RefreshLocal` that records something begins with. -/
def createVersion (parent : Option VersionId) (path : Path) : NodeM H (VersionId × Nat) := do
  let clock ← dbGet fun db => db.advanceLogicalClock 0
  let version ← newUuidV4
  let n ← Exec.state
  dbDo fun db => db.recordCreation ⟨version, parent, path, n.config.deviceId, clock⟩
  pure (version, clock)

/-- The record of a snapshot entry with a new version. -/
def changeRecord (config : Config) (entry : SnapshotEntry H) (version : VersionId × Nat) :
    FileRecord H :=
  { taskId := config.taskId, relativePath := entry.relativePath, kind := entry.kind
    size := entry.size, mtimeNs := entry.mtimeNs, contentHash := entry.contentHash
    versionId := version.1, originDeviceId := config.deviceId, logicalClock := version.2
    deletedAtMs := none }

/-- The new version of a path that was created or changed. -/
def recordChange (previous : Option (FileRecord H)) (entry : SnapshotEntry H) : NodeM H Unit := do
  let version ← createVersion (previous.map FileRecord.versionId) entry.relativePath
  let n ← Exec.state
  dbDo fun db => db.upsertFileRecord (changeRecord n.config entry version)

/-- The new version of a path that vanished. -/
def recordDeletion (record : FileRecord H) : NodeM H Unit := do
  let version ← createVersion (some record.versionId) record.relativePath
  let n ← Exec.state
  dbDo fun db => db.recordTombstone n.config.taskId record.relativePath version.1 n.config.deviceId
    version.2 n.nowMs

/-- The first loop of `RefreshLocal`; `known` is what the index has not passed yet. -/
def refreshEntries : List (FileRecord H) → List (SnapshotEntry H) → NodeM H Unit
  | _, [] => pure ()
  | known, entry :: snapshot => do
    let known := known.dropWhile fun record => record.relativePath < entry.relativePath
    let previous := known.head?.filter fun record => record.relativePath = entry.relativePath
    Exec.when (¬ previous.any fun record => sameSnapshot entry record)
      (recordChange previous entry)
    refreshEntries known snapshot

/-- The second loop of `RefreshLocal`. -/
def refreshDeletions : List (SnapshotEntry H) → List (FileRecord H) → NodeM H Unit
  | _, [] => pure ()
  | snapshot, record :: known => do
    let snapshot := snapshot.dropWhile fun entry => entry.relativePath < record.relativePath
    let isPresent := snapshot.head?.any fun entry => entry.relativePath = record.relativePath
    Exec.when (¬ (record.kind = .tombstone ∨ isPresent)) (recordDeletion record)
    refreshDeletions snapshot known

/-- The source files of a snapshot, sorted by hash. -/
def sourceFilesOf (snapshot : List (SnapshotEntry H)) : List (SourceFile H) :=
  (snapshot.filterMap fun entry =>
    if entry.isFile then entry.contentHash.map fun hash => ⟨entry.relativePath, hash⟩
    else none).insertionSort fun a b => a.hash ≤ b.hash

/-- The scan of `RefreshLocal`: what is not ignored and not a conflict copy. -/
def localSnapshot (n : Node H) : Except Error (List (SnapshotEntry H)) := do
  let rules ← n.folder.loadRules
  let snapshot ← n.folder.scan rules n.env.mtime
  pure (snapshot.filter fun entry => !isConflictPath entry.relativePath)

/-- `RefreshLocal`: a scan of the folder, recorded path by path, and then the manifest. -/
def refreshLocal : NodeM H Unit := do
  let n ← Exec.state
  if n.policyPending then pure ()
  else
    let currentHash ← Exec.check rulesHash
    if n.receivedHello ∧ some currentHash ≠ n.policyHash then
      Exec.update fun n => { n with policyReady := false }
      Exec.raise (.runtimeError "ignore policy changed outside negotiated editor")
    else
      let snapshot ← Exec.check localSnapshot
      let known := n.db.listFileRecords
      refreshEntries known snapshot
      refreshDeletions snapshot known
      Exec.update fun n => { n with sourceFiles := sourceFilesOf snapshot }
      Exec.when n.receivedHello sendManifest

/-- `TaskRuntimeManager::PerformScan` of a bidirectional task.  The walk and the reconciliation are
one step: a walk that a remote commit overtakes is discarded. -/
def performScan : NodeM H Unit := do
  let diskHash ← Exec.check rulesHash
  let snapshot ← Exec.check localSnapshot
  let n ← Exec.state
  if n.policyPending then pure ()
  else if n.db.currentIgnorePolicyRevision.any fun policy => policy.contentHash ≠ diskHash then
    Exec.raise (.runtimeError "bidirectional ignore policy changed outside negotiated editor")
  else
    let (_, used) ← dbGet fun db =>
      reconcile true db snapshot ⟨n.config.taskId, n.config.deviceId, 0, n.nowMs⟩ n.uuid n.uuidsUsed
    Exec.update fun n => { n with uuidsUsed := used }

/-- The scan of a task without its runtime: the IPC command `scan_task`, and `--scan-task` of the
command line.  Both take the device identifier from their caller. -/
def scanTask (deviceId : DeviceId) : NodeM H Unit := do
  let n ← Exec.state
  let rules ← Exec.check fun n => n.folder.loadRules
  let snapshot ← Exec.check fun n => n.folder.scan rules n.env.mtime
  let (_, used) ← dbGet fun db =>
    reconcile true db snapshot ⟨n.config.taskId, deviceId, 0, n.nowMs⟩ n.uuid n.uuidsUsed
  Exec.update fun n => { n with uuidsUsed := used }

/-- `Start`: the rules are recorded, the folder is scanned, and the peer gets a HELLO. -/
def start : NodeM H Unit := do
  let n ← Exec.state
  if n.started then pure ()
  else
    Exec.update fun n => { n with started := true }
    let current ← synchronizePolicy
    Exec.update fun n => { n with policyHash := some current.contentHash }
    refreshLocal
    send (.hello (helloOf n.config))

end Node

end VeritasSync
