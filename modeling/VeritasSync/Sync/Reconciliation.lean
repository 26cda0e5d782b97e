import VeritasSync.Lib.Transaction
import VeritasSync.Sync.ManifestDiff
import VeritasSync.Sync.Recorders

/-!
# What `SnapshotReconciler::Apply` does to a database

`Apply` computes what to write before it opens a transaction, from three indices over the snapshot,
the records and their diff.  In the transaction it draws a clock, adds a row of lineage and stores a
record, path by path.

The model in `VeritasSync.Sync.SnapshotReconciler` takes the transaction for one step.  Here it is
written statement by statement, on a connection whose statements can fail.

What a reader wants to know about `Apply` is what the database says afterwards, and that needs no
mention of loops: every path of the snapshot has a record that describes it, every other record is a
tombstone, a path that was right before has the record it had, and a new version has its row and its
clock.  `Reconciled` says this, and the proof goes through the list of writes.  A list of writes
that are all to different paths can be looked up path by path; that is where the order of the two
inputs comes in.

## What is here

* `Write`, `runAll_eq_ok` — the writes of the two loops, and what they leave when all succeed.
* `mem_upsertsBy` — which records are written for a snapshot.
* `newPaths` — the paths with a new version, in the order of their clocks.
* `Reconciled` — the database is what the snapshot says.
* `apply_reconciled` — **`Apply` reconciles or changes nothing**, and has nothing to do the second
  time.

The generator of identifiers is an argument.  Nothing is assumed about it: a version is new if it is
not the one the path had.
-/

set_option autoImplicit false

namespace VeritasSync

variable {H : Type}

/-! ## The writes of the transaction

A write is what one round of either loop does to the database.  The rounds do not read what earlier
ones have written, but for the clock. -/

/-- One round of either loop: a record is stored as it is, or with a version that has the given
parent and the next clock. -/
inductive Write (H : Type) where
  | record (r : FileRecord H)
  | version (parent : Option VersionId) (r : FileRecord H)

namespace Write

/-- The path that is written. -/
def path : Write H → Path
  | .record r => r.relativePath
  | .version _ r => r.relativePath

/-- The path, if it gets a new version. -/
def newPath : Write H → Option Path
  | .record _ => none
  | .version _ r => some r.relativePath

def run (db : Database H) : Write H → Except Error (Database H)
  | .record r => db.upsertFileRecord r
  | .version parent r => recordNewVersion db parent r

/-- What is stored, if the task's clock says `clock`. -/
def stored (clock : Nat) : Write H → FileRecord H
  | .record r => r
  | .version _ r => { r with logicalClock := clock + 1 }

/-- What the clock says afterwards. -/
def after (clock : Nat) : Write H → Nat
  | .record _ => clock
  | .version _ _ => clock + 1

end Write

/-- Rows of lineage are not changed. -/
def LineageGrows (db db' : Database H) : Prop :=
  ∀ v parent, db.lineage.find v = some parent → db'.lineage.find v = some parent

theorem recordCreation_lineage {db db' : Database H} {c : Creation}
    (h : db.recordCreation c = .ok db') : LineageGrows db db' ∧
      db'.lineage.find c.versionId = some c.parentVersionId ∧
      c.parentVersionId ≠ some c.versionId := by
  obtain ⟨db1, hrow, h⟩ := ok_of_bind h
  obtain ⟨-, hparent, hold, lineage, rfl, hfind⟩ := Database.recordVersionLineage_eq_ok hrow
  cases h
  refine ⟨fun v parent hv => ?_, ?_, hparent⟩
  · show lineage.find v = _
    rw [hfind]
    split
    · rename_i heq
      rw [hold parent (heq ▸ hv)]
    · exact hv
  · show lineage.find c.versionId = _
    rw [hfind, if_pos rfl]

/-- What one write does. -/
structure Written (w : Write H) (db db' : Database H) : Prop where
  valid : Database.validateFileRecord (w.stored db.logicalClock) = .ok ()
  records : db'.records = db.records.insert w.path (w.stored db.logicalClock)
  clock : db'.logicalClock = w.after db.logicalClock
  grows : LineageGrows db db'
  parent : ∀ parent r, w = .version parent r →
    db'.lineage.find r.versionId = some parent ∧ parent ≠ some r.versionId

theorem Write.run_eq_ok {w : Write H} {db db' : Database H} (h : w.run db = .ok db') :
    Written w db db' := by
  cases w with
  | record r =>
    obtain ⟨hvalid, rfl⟩ := Database.upsertFileRecord_eq_ok h
    exact ⟨hvalid, rfl, rfl, fun _ _ => id, nofun⟩
  | version parent r =>
    obtain ⟨⟨clock, db1⟩, hclock, h⟩ := ok_of_bind h
    obtain ⟨db2, hcreate, hupsert⟩ := ok_of_bind h
    obtain ⟨hnext, rfl⟩ := Database.advanceLogicalClock_eq_ok hclock
    rw [Nat.max_zero] at hnext
    subst hnext
    obtain ⟨hgrows, hfind, hparent⟩ := recordCreation_lineage hcreate
    obtain ⟨-, lineage, rfl, -⟩ := Database.recordCreation_eq_ok hcreate
    obtain ⟨hvalid, rfl⟩ := Database.upsertFileRecord_eq_ok hupsert
    refine ⟨hvalid, rfl, rfl, hgrows, ?_⟩
    rintro _ _ ⟨⟩
    exact ⟨hfind, hparent⟩

/-- The writes, in order. -/
def runAll : Database H → List (Write H) → Except Error (Database H)
  | db, [] => .ok db
  | db, w :: ws => do
    let db ← w.run db
    runAll db ws

theorem runAll_append (db : Database H) (ws ws' : List (Write H)) :
    runAll db (ws ++ ws') = (runAll db ws >>= fun db => runAll db ws') := by
  induction ws generalizing db with
  | nil => rfl
  | cons w ws ih =>
    show (w.run db >>= fun db => runAll db (ws ++ ws')) = _
    rw [runAll, bind_assoc]
    exact bind_congr fun db1 => ih db1

/-- The clock of the record of a path. -/
def clockAt (db : Database H) (p : Path) : Nat :=
  ((db.records.find p).map FileRecord.logicalClock).getD 0

/-- What a list of writes to different paths does. -/
structure AllWritten (ws : List (Write H)) (db db' : Database H) : Prop where
  outside : ∀ p, p ∉ ws.map Write.path → db'.records.find p = db.records.find p
  inside : ∀ w ∈ ws, ∃ clock, db'.records.find w.path = some (w.stored clock) ∧
    Database.validateFileRecord (w.stored clock) = .ok ()
  parent : ∀ parent r, .version parent r ∈ ws →
    db'.lineage.find r.versionId = some parent ∧ parent ≠ some r.versionId
  grows : LineageGrows db db'
  clocks : ((ws.filterMap Write.newPath).map (clockAt db')).Pairwise (· < ·)
  later : ∀ p ∈ ws.filterMap Write.newPath, db.logicalClock < clockAt db' p

/-- **What the writes leave.**  The writes are to different paths, so each record can be looked up
on its own. -/
theorem runAll_eq_ok {ws : List (Write H)} {db db' : Database H}
    (hpaths : (ws.map Write.path).Nodup) (h : runAll db ws = .ok db') : AllWritten ws db db' := by
  induction ws generalizing db with
  | nil =>
    cases h
    exact ⟨fun _ _ => rfl, nofun, nofun, fun _ _ => id, .nil, nofun⟩
  | cons w ws ih =>
    obtain ⟨db1, hrun, h⟩ := ok_of_bind h
    obtain ⟨hhead, htail⟩ := List.nodup_cons.mp hpaths
    have hfirst := Write.run_eq_ok hrun
    have hrest := ih htail h
    -- the other writes are about other paths, so the record stays
    have hstored : db'.records.find w.path = some (w.stored db.logicalClock) := by
      rw [hrest.outside _ hhead, hfirst.records, OrdMap.find_insert_self]
    refine ⟨fun p hp => ?_, fun w' hw' => ?_, fun parent r hr => ?_, ?_, ?_, fun p hp => ?_⟩
    · rw [List.map_cons, List.mem_cons, not_or] at hp
      rw [hrest.outside p hp.2, hfirst.records, OrdMap.find_insert_of_ne _ _ hp.1]
    · rcases List.mem_cons.mp hw' with rfl | hw'
      · exact ⟨_, hstored, hfirst.valid⟩
      · exact hrest.inside w' hw'
    · rcases List.mem_cons.mp hr with hr | hr
      · obtain ⟨hfind, hne⟩ := hfirst.parent parent r hr.symm
        exact ⟨hrest.grows _ _ hfind, hne⟩
      · exact hrest.parent parent r hr
    · exact fun v parent hv => hrest.grows v parent (hfirst.grows v parent hv)
    · cases w with
      | record r => exact hrest.clocks
      | version parent r =>
        refine List.pairwise_cons.mpr ⟨fun clock hclock => ?_, hrest.clocks⟩
        obtain ⟨q, hq, rfl⟩ := List.mem_map.mp hclock
        have hlater := hrest.later q hq
        rw [hfirst.clock] at hlater
        have hhere : clockAt db' r.relativePath = db.logicalClock + 1 := by
          rw [clockAt, show db'.records.find r.relativePath = _ from hstored]
          rfl
        rw [hhere]
        exact hlater
    · cases w with
      | record r =>
        have hlater := hrest.later p hp
        rwa [hfirst.clock] at hlater
      | version parent r =>
        rcases List.mem_cons.mp hp with rfl | hp
        · rw [clockAt, show db'.records.find r.relativePath = _ from hstored]
          exact Nat.lt_succ_self _
        · have hlater := hrest.later p hp
          rw [hfirst.clock] at hlater
          exact (Nat.lt_succ_self _).trans hlater

/-- Some of the writes give their path a new version. -/
theorem newPath_sublist {ws : List (Write H)} :
    (ws.filterMap Write.newPath).Sublist (ws.map Write.path) := by
  induction ws with
  | nil => exact List.nil_sublist _
  | cons w ws ih =>
    cases w with
    | record r => exact ih.cons _
    | version parent r => exact ih.cons_cons _

/-! ### The two loops -/

/-- The write of `reconcileUpsert`. -/
def upsertWrite (versioned : Bool) (previous : Path → Option (FileRecord H))
    (record : FileRecord H) : Write H :=
  let old := (previous record.relativePath).map FileRecord.versionId
  if versioned ∧ old ≠ some record.versionId then .version old record else .record record

/-- The write of `reconcileDelete`. -/
def deleteWrite (versioned : Bool) (config : ReconcileConfig)
    (previous : Path → Option (FileRecord H)) (version : VersionId) (path : Path) : Write H :=
  let tombstone := Database.tombstoneRecord config.taskId path version config.originDeviceId
    config.logicalClock config.nowMs
  if versioned then .version ((previous path).map FileRecord.versionId) tombstone
  else .record tombstone

/-- The writes of `reconcileDeletes`. -/
def deleteWrites (versioned : Bool) (config : ReconcileConfig)
    (previous : Path → Option (FileRecord H)) (newId : Nat → VersionId) :
    Nat → List Path → List (Write H)
  | _, [] => []
  | used, path :: rest =>
    deleteWrite versioned config previous (newId used) path ::
      deleteWrites versioned config previous newId (used + 1) rest

section Loops

variable {versioned : Bool} {config : ReconcileConfig} {previous : Path → Option (FileRecord H)}
  {newId : Nat → VersionId} {used : Nat} {db : Database H}

theorem upsertWrite_path (record : FileRecord H) :
    (upsertWrite versioned previous record).path = record.relativePath := by
  rw [upsertWrite]
  split <;> rfl

theorem deleteWrite_path (version : VersionId) (path : Path) :
    (deleteWrite versioned config previous version path).path = path := by
  rw [deleteWrite]
  split <;> rfl

theorem reconcileUpserts_eq (records : List (FileRecord H)) :
    reconcileUpserts versioned previous db records =
      runAll db (records.map (upsertWrite versioned previous)) := by
  induction records generalizing db with
  | nil => rfl
  | cons record records ih =>
    have hstep : reconcileUpsert versioned previous db record =
        (upsertWrite versioned previous record).run db := by
      rw [reconcileUpsert, upsertWrite]
      split <;> rfl
    rw [reconcileUpserts, List.map_cons, runAll, hstep]
    exact bind_congr fun db1 => ih

theorem reconcileDeletes_eq (paths : List Path) :
    reconcileDeletes versioned config previous newId used db paths =
      (runAll db (deleteWrites versioned config previous newId used paths)).map fun db =>
        (db, used + paths.length) := by
  induction paths generalizing db used with
  | nil => rfl
  | cons path paths ih =>
    have hstep : reconcileDelete versioned config previous (newId used) db path =
        (deleteWrite versioned config previous (newId used) path).run db := by
      rw [reconcileDelete, deleteWrite]
      split <;> rfl
    rw [reconcileDeletes, deleteWrites, runAll, hstep]
    cases (deleteWrite versioned config previous (newId used) path).run db with
    | error e => rfl
    | ok db1 =>
      show reconcileDeletes versioned config previous newId (used + 1) db1 paths = _
      rw [ih, List.length_cons, Nat.add_right_comm, Nat.add_assoc]
      rfl

theorem deleteWrites_paths (paths : List Path) :
    (deleteWrites versioned config previous newId used paths).map Write.path = paths := by
  induction paths generalizing used with
  | nil => rfl
  | cons path paths ih => rw [deleteWrites, List.map_cons, deleteWrite_path, ih]

variable (versioned config previous newId used) in
/-- Every deleted path is written. -/
theorem exists_deleteWrite {path : Path} {paths : List Path} (h : path ∈ paths) :
    ∃ version, deleteWrite versioned config previous version path ∈
      deleteWrites versioned config previous newId used paths := by
  induction paths generalizing used with
  | nil => cases h
  | cons q paths ih =>
    rcases List.mem_cons.mp h with rfl | h
    · exact ⟨_, List.mem_cons_self⟩
    · obtain ⟨version, hmem⟩ := ih (used + 1) h
      exact ⟨version, List.mem_cons_of_mem _ hmem⟩

theorem mem_deleteWrites {w : Write H} {paths : List Path}
    (h : w ∈ deleteWrites versioned config previous newId used paths) :
    ∃ version, ∃ path ∈ paths, w = deleteWrite versioned config previous version path := by
  induction paths generalizing used with
  | nil => cases h
  | cons path paths ih =>
    rcases List.mem_cons.mp h with rfl | h
    · exact ⟨_, path, List.mem_cons_self, rfl⟩
    · obtain ⟨version, q, hq, rfl⟩ := ih h
      exact ⟨version, q, List.mem_cons_of_mem _ hq, rfl⟩

end Loops

/-! ### The records of the first loop

Two indices run along with the loop.  They find what a search would find, since all three lists are
in path order. -/

section Upserts

variable {config : ReconcileConfig} {newId : Nat → VersionId} {known : List (FileRecord H)}
  {changed : SnapshotEntry H → Bool} {snapshot : List (SnapshotEntry H)} {used : Nat}

/-- The paths come in the order of the snapshot. -/
theorem upsertsBy_sublist :
    ((upsertsBy config newId known changed used snapshot).1.map FileRecord.relativePath).Sublist
      (snapshot.map SnapshotEntry.relativePath) := by
  induction snapshot generalizing used with
  | nil => exact List.nil_sublist _
  | cons entry snapshot ih =>
    rw [upsertsBy]
    split
    · rename_i record hfind _
      have hpath : record.relativePath = entry.relativePath := by
        simpa using List.find?_some hfind
      dsimp only
      split
      · rw [List.map_cons, List.map_cons]
        exact hpath ▸ ih.cons_cons _
      · exact ih.cons _
    · exact ih.cons_cons _

/-- What is written for an entry. -/
structure UpsertedFor (config : ReconcileConfig) (newId : Nat → VersionId)
    (known : List (FileRecord H)) (changed : SnapshotEntry H → Bool) (entry : SnapshotEntry H)
    (upserts : List (FileRecord H)) : Prop where
  fresh : changed entry = true ∨
      (known.find? fun record => record.relativePath = entry.relativePath) = none →
    ∃ k, makeRecord entry config (newId k) ∈ upserts
  touched : ∀ record, changed entry = false →
    (known.find? fun record => record.relativePath = entry.relativePath) = some record →
    if record.size ≠ entry.size ∨ record.mtimeNs ≠ entry.mtimeNs then
      { record with size := entry.size, mtimeNs := entry.mtimeNs } ∈ upserts
    else ∀ u ∈ upserts, u.relativePath ≠ entry.relativePath

theorem UpsertedFor.cons {entry : SnapshotEntry H} {upserts : List (FileRecord H)}
    (h : UpsertedFor config newId known changed entry upserts) {u : FileRecord H}
    (hu : u.relativePath ≠ entry.relativePath) :
    UpsertedFor config newId known changed entry (u :: upserts) := by
  refine ⟨fun hfresh => ?_, fun record hsame hfind => ?_⟩
  · obtain ⟨k, hk⟩ := h.fresh hfresh
    exact ⟨k, List.mem_cons_of_mem _ hk⟩
  · have htouched := h.touched record hsame hfind
    split
    · rename_i hdiffer
      rw [if_pos hdiffer] at htouched
      exact List.mem_cons_of_mem _ htouched
    · rename_i hdiffer
      rw [if_neg hdiffer] at htouched
      exact List.forall_mem_cons.mpr ⟨hu, htouched⟩

variable (config newId known changed used) in
/-- **Which records are written** for a sorted snapshot.  The indices of the loop have become
lookups here. -/
theorem mem_upsertsBy (hsnapshot : Merge.Sorted SnapshotEntry.relativePath snapshot)
    {entry : SnapshotEntry H} (hentry : entry ∈ snapshot) :
    UpsertedFor config newId known changed entry
      (upsertsBy config newId known changed used snapshot).1 := by
  induction snapshot generalizing used with
  | nil => cases hentry
  | cons e snapshot ih =>
    rw [upsertsBy]
    rcases List.mem_cons.mp hentry with rfl | hlater
    · -- the entries after this one are written under their own paths
      have hrest : ∀ used, ∀ u ∈ (upsertsBy config newId known changed used snapshot).1,
          u.relativePath ≠ entry.relativePath := by
        intro used u hu hpath
        obtain ⟨e, he, hepath⟩ :=
          List.mem_map.mp (upsertsBy_sublist.subset (List.mem_map_of_mem hu))
        exact ne_of_lt (hsnapshot.lt he) (hepath.trans hpath).symm
      split
      · rename_i record hfind hsame
        refine ⟨fun hfresh => ?_, fun record' _ hfind' => ?_⟩
        · rw [hsame, hfind] at hfresh
          rcases hfresh with hfresh | hfresh <;> cases hfresh
        · cases hfind.symm.trans hfind'
          split
          · exact List.mem_cons_self
          · exact hrest _
      · rename_i hcase
        refine ⟨fun _ => ⟨_, List.mem_cons_self⟩, fun record hsame hfind => ?_⟩
        exact absurd hsame (hcase record hfind)
    · have hne : e.relativePath ≠ entry.relativePath := ne_of_lt (hsnapshot.lt hlater)
      split
      · rename_i record hfind _
        have hpath : record.relativePath = e.relativePath := by
          simpa using List.find?_some hfind
        dsimp only
        split
        · exact (ih _ hsnapshot.tail hlater).cons (hpath.trans_ne hne)
        · exact ih _ hsnapshot.tail hlater
      · exact (ih _ hsnapshot.tail hlater).cons hne

/-- Nothing is written, and no identifier drawn, where nothing has changed. -/
theorem upsertsBy_eq_nil (h : ∀ entry ∈ snapshot, changed entry = false ∧ ∃ record,
      (known.find? fun record => record.relativePath = entry.relativePath) = some record ∧
        record.size = entry.size ∧ record.mtimeNs = entry.mtimeNs) :
    upsertsBy config newId known changed used snapshot = ([], used) := by
  induction snapshot with
  | nil => rfl
  | cons entry snapshot ih =>
    obtain ⟨⟨hsame, record, hfind, hsize, hmtime⟩, hrest⟩ := List.forall_mem_cons.mp h
    rw [upsertsBy, hfind, hsame]
    dsimp only
    rw [if_neg (by simp [hsize, hmtime]), ih hrest]

end Upserts

/-! ## A reconciled database

The specification. -/

section Reconciled

variable [ContentHash H]

/-- No directory has a hash, neither in the snapshot nor as a live record.  A scan reads none. -/
def DirectoriesUnhashed (snapshot : List (SnapshotEntry H)) (db : Database H) : Prop :=
  (∀ entry ∈ snapshot, entry.isFile = false → entry.contentHash = none) ∧
    ∀ p r, db.records.find p = some r → r.kind = .directory → r.contentHash = none

/-- The record of the path is one the path did not have. -/
def NewVersion (db db' : Database H) (p : Path) (r : FileRecord H) : Prop :=
  db'.records.find p = some r ∧ Node.versionsOf db p ≠ some r.versionId

omit [ContentHash H] in
theorem newVersion_iff {db db' : Database H} {p : Path} : (∃ r, NewVersion db db' p r) ↔
    (Node.versionsOf db' p).isSome ∧ Node.versionsOf db' p ≠ Node.versionsOf db p := by
  rw [Node.versionsOf, Option.isSome_map, Option.isSome_iff_exists]
  constructor
  · rintro ⟨r, hr, hne⟩
    exact ⟨⟨r, hr⟩, by rw [hr]; exact fun heq => hne heq.symm⟩
  · rintro ⟨⟨r, hr⟩, hne⟩
    rw [hr] at hne
    exact ⟨r, hr, fun heq => hne heq.symm⟩

/-- The order in which a reconciliation comes to the paths.  The first loop goes through the
snapshot and the second one through the records that have no entry there. -/
def visited (snapshot : List (SnapshotEntry H)) (db : Database H) : List Path :=
  let paths := snapshot.map SnapshotEntry.relativePath
  paths ++ (db.listFileRecords.map FileRecord.relativePath).filter (· ∉ paths)

/-- The paths with a new version, in that order. -/
def newPaths (snapshot : List (SnapshotEntry H)) (db db' : Database H) : List Path :=
  (visited snapshot db).filter fun p =>
    (Node.versionsOf db' p).isSome ∧ Node.versionsOf db' p ≠ Node.versionsOf db p

/-- The database is what the snapshot says, as seen from what it was before.  In a versioned task
every new version has the old one as its parent, and the versions got their clocks in the order of
`newPaths`. -/
structure Reconciled (versioned : Bool) (snapshot : List (SnapshotEntry H))
    (db db' : Database H) : Prop where
  live : ∀ entry ∈ snapshot, ∃ r, db'.records.find entry.relativePath = some r ∧
    r.kind = entry.kind ∧ r.size = entry.size ∧ r.mtimeNs = entry.mtimeNs ∧
    (entry.isFile = true ∨ DirectoriesUnhashed snapshot db → r.contentHash = entry.contentHash)
  only : ∀ p r, db'.records.find p = some r → r.kind ≠ .tombstone →
    ∃ entry ∈ snapshot, entry.relativePath = p
  gone : ∀ p r, db.records.find p = some r → r.kind ≠ .tombstone →
    (∀ entry ∈ snapshot, entry.relativePath ≠ p) → Node.Tombstoned p db'
  kept : ∀ entry ∈ snapshot, ∀ r, db.records.find entry.relativePath = some r →
    Describes r entry → ∃ r', db'.records.find entry.relativePath = some r' ∧
      r'.versionId = r.versionId ∧ r'.originDeviceId = r.originDeviceId ∧
      r'.logicalClock = r.logicalClock
  parent : versioned = true → ∀ p r, NewVersion db db' p r →
    db'.lineage.find r.versionId = some (Node.versionsOf db p)
  clocks : versioned = true →
    (∀ p, p ∈ newPaths snapshot db db' ↔ ∃ r, NewVersion db db' p r) ∧
      ((newPaths snapshot db db').map (clockAt db')).Pairwise (· < ·) ∧
      ∀ p ∈ newPaths snapshot db db', db.logicalClock < clockAt db' p

variable {versioned : Bool} {snapshot : List (SnapshotEntry H)} {config : ReconcileConfig}
  {newId : Nat → VersionId} {used used' : Nat} {db db' : Database H} {diff : ManifestDiff H}
  {result : ReconcileResult}

/-- The writes of a reconciliation. -/
def reconcileWrites (versioned : Bool) (config : ReconcileConfig) (newId : Nat → VersionId)
    (used : Nat) (db : Database H) (diff : ManifestDiff H) (snapshot : List (SnapshotEntry H)) :
    List (Write H) :=
  let (upserts, used) :=
    upsertsOf config newId used db.listFileRecords diff.createdOrChanged snapshot
  upserts.map (upsertWrite versioned db.records.find) ++
    deleteWrites versioned config db.records.find newId used diff.deletedPaths

/-- What a reconciliation that returned has checked, compared and written. -/
structure Ran (versioned : Bool) (config : ReconcileConfig) (newId : Nat → VersionId) (used : Nat)
    (snapshot : List (SnapshotEntry H)) (db db' : Database H) (diff : ManifestDiff H) : Prop where
  sorted : Merge.Sorted SnapshotEntry.relativePath snapshot
  diff_eq : diffManifest snapshot db.listFileRecords = .ok diff
  writes : runAll db (reconcileWrites versioned config newId used db diff snapshot) = .ok db'

/-- `reconcile`, with its writes in one list. -/
theorem ran_of_reconcile
    (h : reconcile versioned db snapshot config newId used = .ok ((result, used'), db')) :
    ∃ diff, Ran versioned config newId used snapshot db db' diff := by
  obtain ⟨diff, db1, hdiff, hupserts, hdeletes⟩ := reconcile_eq_ok h
  rw [reconcileUpserts_eq] at hupserts
  rw [reconcileDeletes_eq] at hdeletes
  obtain ⟨db2, hrest, hpair⟩ := ok_of_map hdeletes
  cases hpair
  refine ⟨diff, ?_, hdiff, ?_⟩
  · have hle : (snapshot.map SnapshotEntry.relativePath).Pairwise (· ≤ ·) := by
      rw [reconcile] at h
      split at h
      · cases h
      split at h
      · cases h
      · rename_i hsorted
        simpa using hsorted
    have hnodup : (snapshot.map SnapshotEntry.relativePath).Nodup := by
      obtain ⟨scanned, hscanned, -⟩ := ok_of_bind hdiff
      by_contra hnot
      obtain ⟨e, he⟩ := orderedEntries_eq_error_iff.mpr hnot
      cases hscanned.symm.trans he
    exact Merge.Sorted.of_le (List.pairwise_map.mp hle) hnodup
  · rw [reconcileWrites]
    dsimp only
    rw [runAll_append, hupserts]
    exact hrest

/-! ### What was written -/

omit [ContentHash H] in
theorem hash_of_valid {r : FileRecord H} (h : Database.validateFileRecord r = .ok ())
    (hfile : r.kind = .file) : r.contentHash.isSome = true := by
  by_contra hnone
  rw [Bool.not_eq_true, Option.isSome_eq_false_iff] at hnone
  obtain ⟨-, -, -, hpath⟩ := Database.validateFileRecord_eq_ok h
  rw [Database.validateFileRecord, hpath] at h
  split at h
  · cases h
  · simp only [hfile, hnone, and_self, if_true] at h
    cases h

omit [ContentHash H] in
theorem upsertWrite_stored (versioned : Bool) (previous : Path → Option (FileRecord H))
    (u : FileRecord H) (clock : Nat) : ∃ clock', (upsertWrite versioned previous u).stored clock =
      { u with logicalClock := clock' } := by
  rw [upsertWrite]
  split
  · exact ⟨_, rfl⟩
  · exact ⟨_, rfl⟩

omit [ContentHash H] in
theorem deleteWrite_stored (previous : Path → Option (FileRecord H)) (version : VersionId)
    (path : Path) (clock : Nat) :
    ((deleteWrite versioned config previous version path).stored clock).kind = .tombstone := by
  rw [deleteWrite]
  split <;> rfl

namespace Ran

variable (h : Ran versioned config newId used snapshot db db' diff) (hkeyed : db.Keyed)
include h hkeyed

theorem diffOf : Node.DiffOf snapshot db.listFileRecords diff :=
  Node.diffOf_diffManifest h.sorted hkeyed.sorted h.diff_eq

/-- The second loop goes through the paths in the order of the records. -/
theorem deleted_sublist :
    diff.deletedPaths.Sublist (db.listFileRecords.map FileRecord.relativePath) := by
  have hdiff := h.diff_eq
  rw [diffManifest, orderedEntries_of_sorted h.sorted, orderedEntries_of_sorted hkeyed.sorted]
    at hdiff
  exact deletedPaths_sublist hdiff

/-- No path is visited twice. -/
theorem visited_nodup : (visited snapshot db).Nodup := by
  refine List.nodup_append.mpr ⟨h.sorted.nodup, hkeyed.sorted.nodup.filter _, ?_⟩
  rintro p hp _ hrest rfl
  exact (by simpa using (List.mem_filter.mp hrest).2 : p ∉ _) hp

/-- The records of the first loop, with every path looked up. -/
theorem upserts_eq :
    upsertsOf config newId used db.listFileRecords diff.createdOrChanged snapshot =
      upsertsBy config newId db.listFileRecords (fun entry =>
        (diff.createdOrChanged.find? fun c => c.relativePath = entry.relativePath).isSome) used
        snapshot :=
  upsertsOf_eq config newId hkeyed.sorted (h.sorted.sublist (h.diffOf hkeyed).sublist) h.sorted

theorem isSome_find?_changed {entry : SnapshotEntry H} (hentry : entry ∈ snapshot) :
    (diff.createdOrChanged.find? fun c => c.relativePath = entry.relativePath).isSome = true ↔
      entry ∈ diff.createdOrChanged := by
  have hsublist := (h.diffOf hkeyed).sublist
  rw [Option.isSome_iff_exists]
  constructor
  · rintro ⟨c, hc⟩
    obtain ⟨hmem, hpath⟩ := (h.sorted.sublist hsublist).find?_eq_some_iff.mp hc
    rwa [← h.sorted.eq_of_key_eq (hsublist.subset hmem) hentry hpath]
  · exact fun hmem => ⟨entry, (h.sorted.sublist hsublist).find?_eq_some_iff.mpr ⟨hmem, rfl⟩⟩

theorem upserts_sublist :
    ((upsertsOf config newId used db.listFileRecords diff.createdOrChanged snapshot).1.map
      FileRecord.relativePath).Sublist (snapshot.map SnapshotEntry.relativePath) := by
  rw [h.upserts_eq hkeyed]
  exact upsertsBy_sublist

/-- The paths are written in the order in which they are visited. -/
theorem paths_sublist :
    ((reconcileWrites versioned config newId used db diff snapshot).map Write.path).Sublist
      (visited snapshot db) := by
  rw [reconcileWrites]
  dsimp only
  rw [List.map_append, deleteWrites_paths, List.map_map]
  have hpath : Write.path ∘ upsertWrite versioned db.records.find = FileRecord.relativePath :=
    funext upsertWrite_path
  rw [hpath]
  refine (h.upserts_sublist hkeyed).append ?_
  have habsent : ∀ p ∈ diff.deletedPaths, p ∉ snapshot.map SnapshotEntry.relativePath := by
    intro p hp hmem
    obtain ⟨entry, hentry, rfl⟩ := List.mem_map.mp hmem
    obtain ⟨-, -, -, -, hnone⟩ := ((h.diffOf hkeyed).deleted _).mp hp
    exact hnone entry hentry rfl
  rw [← List.filter_eq_self.mpr fun p hp => decide_eq_true (habsent p hp)]
  exact (h.deleted_sublist hkeyed).filter _

/-- No path is written twice. -/
theorem paths_nodup :
    ((reconcileWrites versioned config newId used db diff snapshot).map Write.path).Nodup :=
  (h.visited_nodup hkeyed).sublist (h.paths_sublist hkeyed)

theorem allWritten :
    AllWritten (reconcileWrites versioned config newId used db diff snapshot) db db' :=
  runAll_eq_ok (h.paths_nodup hkeyed) h.writes

/-- The record of a path that the first loop writes. -/
theorem upserted {u : FileRecord H}
    (hu : u ∈ (upsertsOf config newId used db.listFileRecords diff.createdOrChanged snapshot).1) :
    ∃ clock, db'.records.find u.relativePath =
        some ((upsertWrite versioned db.records.find u).stored clock) ∧
      Database.validateFileRecord ((upsertWrite versioned db.records.find u).stored clock) =
        .ok () := by
  have hmem : upsertWrite versioned db.records.find u ∈
      reconcileWrites versioned config newId used db diff snapshot :=
    List.mem_append_left _ (List.mem_map_of_mem hu)
  obtain ⟨clock, hfind, hvalid⟩ := (h.allWritten hkeyed).inside _ hmem
  rw [upsertWrite_path] at hfind
  exact ⟨clock, hfind, hvalid⟩

/-- A path the second loop writes. -/
theorem tombstoned {p : Path} (hp : p ∈ diff.deletedPaths) : Node.Tombstoned p db' := by
  obtain ⟨version, hmem⟩ := exists_deleteWrite versioned config db.records.find newId
    (upsertsOf config newId used db.listFileRecords diff.createdOrChanged snapshot).2 hp
  obtain ⟨clock, hfind, -⟩ := (h.allWritten hkeyed).inside _ (List.mem_append_right _ hmem)
  rw [deleteWrite_path] at hfind
  exact ⟨_, hfind, deleteWrite_stored _ _ _ _⟩

/-- A path that neither loop writes. -/
theorem untouched {p : Path} (hp : p ∉ diff.deletedPaths)
    (hupserts : ∀ u ∈ (upsertsOf config newId used db.listFileRecords diff.createdOrChanged
      snapshot).1, u.relativePath ≠ p) : db'.records.find p = db.records.find p := by
  refine (h.allWritten hkeyed).outside p fun hmem => ?_
  rw [reconcileWrites] at hmem
  dsimp only at hmem
  rw [List.map_append, deleteWrites_paths] at hmem
  refine (List.mem_append.mp hmem).elim (fun hmem => ?_) hp
  obtain ⟨w, hw, hpath⟩ := List.mem_map.mp hmem
  obtain ⟨u, hu, rfl⟩ := List.mem_map.mp hw
  exact hupserts u hu (hpath ▸ (upsertWrite_path u).symm)

/-- **What the record of an entry is**: the one it had with the size and time of the entry, if that
describes the entry, and a new one otherwise. -/
theorem outcome {entry : SnapshotEntry H} (hentry : entry ∈ snapshot) :
    (∃ r, db.records.find entry.relativePath = some r ∧ r.kind ≠ .tombstone ∧
      isSameContent entry r = .ok true ∧ db'.records.find entry.relativePath =
        some { r with size := entry.size, mtimeNs := entry.mtimeNs }) ∨
    ((∀ r, db.records.find entry.relativePath = some r → r.kind = .tombstone ∨
        isSameContent entry r ≠ .ok true) ∧
      ∃ k clock, db'.records.find entry.relativePath =
          some { makeRecord entry config (newId k) with logicalClock := clock } ∧
        Database.validateFileRecord { makeRecord entry config (newId k) with
          logicalClock := clock } = .ok ()) := by
  have hupserted := mem_upsertsBy config newId db.listFileRecords (fun entry =>
    (diff.createdOrChanged.find? fun c => c.relativePath = entry.relativePath).isSome) used
    h.sorted hentry
  rw [← h.upserts_eq hkeyed] at hupserted
  have hchanged := h.isSome_find?_changed hkeyed hentry
  rw [(h.diffOf hkeyed).changed] at hchanged
  have hlookup := hkeyed.find?_listFileRecords entry.relativePath
  have hmem : ∀ r, db.records.find entry.relativePath = some r →
      r ∈ db.listFileRecords ∧ r.relativePath = entry.relativePath := fun r hr =>
    ⟨Database.mem_listFileRecords.mpr ⟨_, hr⟩, hkeyed _ r hr⟩
  -- a path gets a new version, or keeps the one it had with size and time refreshed
  by_cases hfresh : ∀ r, db.records.find entry.relativePath = some r → r.kind = .tombstone ∨
      isSameContent entry r ≠ .ok true
  · refine .inr ⟨hfresh, ?_⟩
    have hnone : ∀ r ∈ db.listFileRecords, r.relativePath = entry.relativePath →
        r.kind = .tombstone ∨ isSameContent entry r ≠ .ok true := by
      intro r hr hpath
      obtain ⟨q, hq⟩ := Database.mem_listFileRecords.mp hr
      exact hfresh r (hpath ▸ hkeyed q r hq ▸ hq)
    obtain ⟨k, hk⟩ := hupserted.fresh (.inl (hchanged.mpr ⟨hentry, hnone⟩))
    obtain ⟨clock, hfind, hvalid⟩ := h.upserted hkeyed hk
    obtain ⟨clock', hstored⟩ := upsertWrite_stored versioned db.records.find
      (makeRecord entry config (newId k)) clock
    rw [hstored] at hfind hvalid
    exact ⟨k, clock', hfind, hvalid⟩
  · push Not at hfresh
    obtain ⟨r, hr, hlive, hsame⟩ := hfresh
    obtain ⟨hknown, hpath⟩ := hmem r hr
    have hkept : (diff.createdOrChanged.find? fun c =>
        c.relativePath = entry.relativePath).isSome = false := by
      rw [← Bool.not_eq_true, hchanged]
      exact fun hall => (hall.2 r hknown hpath).elim hlive fun hne => hne hsame
    refine .inl ⟨r, hr, hlive, hsame, ?_⟩
    have htouched := hupserted.touched r hkept (hlookup.trans hr)
    split at htouched
    · obtain ⟨clock, hfind, -⟩ := h.upserted hkeyed htouched
      have hwrite : upsertWrite versioned db.records.find
          { r with size := entry.size, mtimeNs := entry.mtimeNs } =
            .record { r with size := entry.size, mtimeNs := entry.mtimeNs } := by
        rw [upsertWrite]
        exact if_neg fun hversion => hversion.2 (by rw [hpath, hr]; rfl)
      rw [hwrite] at hfind
      exact hpath ▸ hfind
    · rename_i hsame'
      rw [not_or, not_not, not_not] at hsame'
      have hgone : entry.relativePath ∉ diff.deletedPaths := fun hdeleted => by
        obtain ⟨-, -, -, -, habsent⟩ := ((h.diffOf hkeyed).deleted _).mp hdeleted
        exact habsent entry hentry rfl
      rw [h.untouched hkeyed hgone htouched, hr, ← hsame'.1, ← hsame'.2]

/-- A reconciliation does not return for a file without a hash. -/
theorem hashed : Hashed snapshot := by
  intro entry hentry hfile
  rcases h.outcome hkeyed hentry with ⟨r, -, -, hsame, -⟩ | ⟨-, k, clock, -, hvalid⟩
  · by_contra hnone
    rw [Bool.not_eq_true, Option.isSome_eq_false_iff, Option.isNone_iff_eq_none] at hnone
    rw [isSameContent, hfile, hnone] at hsame
    split at hsame <;> cases hsame
  · refine hash_of_valid hvalid ?_
    show entry.kind = .file
    rw [SnapshotEntry.kind, if_pos hfile]

/-! ### New versions

The clock goes up by one with each new version, so the clocks of a run of `Apply` are consecutive
and their order is that of the paths. -/

omit [ContentHash H] h hkeyed in
/-- A write to a versioned task stores the version the path had, or a child of it. -/
theorem write_cases {w : Write H}
    (hw : w ∈ reconcileWrites true config newId used db diff snapshot) :
    (∃ u, w = .record u ∧ Node.versionsOf db u.relativePath = some u.versionId) ∨
      ∃ u, w = .version (Node.versionsOf db u.relativePath) u := by
  rw [reconcileWrites] at hw
  rcases List.mem_append.mp hw with hw | hw
  · obtain ⟨u, -, rfl⟩ := List.mem_map.mp hw
    rw [upsertWrite]
    split
    · exact .inr ⟨u, rfl⟩
    · rename_i hsame
      rw [not_and, not_not] at hsame
      exact .inl ⟨u, rfl, hsame rfl⟩
  · obtain ⟨version, p, -, rfl⟩ := mem_deleteWrites hw
    refine .inr ⟨Database.tombstoneRecord config.taskId p version config.originDeviceId
      config.logicalClock config.nowMs, ?_⟩
    rw [deleteWrite, if_pos rfl]
    rfl

/-- A new version comes from a write that gives its path one. -/
theorem exists_version (hversioned : versioned = true) {p : Path} {r : FileRecord H}
    (hnew : NewVersion db db' p r) :
    ∃ u, .version (Node.versionsOf db p) u ∈
        reconcileWrites versioned config newId used db diff snapshot ∧
      u.relativePath = p ∧ u.versionId = r.versionId := by
  subst hversioned
  obtain ⟨hfind, hne⟩ := hnew
  have hwritten := h.allWritten hkeyed
  have hmem : p ∈ (reconcileWrites true config newId used db diff snapshot).map Write.path := by
    by_contra hout
    rw [hwritten.outside p hout] at hfind
    exact hne (by rw [Node.versionsOf, hfind]; rfl)
  obtain ⟨w, hw, rfl⟩ := List.mem_map.mp hmem
  obtain ⟨clock, hstored, -⟩ := hwritten.inside w hw
  rw [hfind] at hstored
  obtain rfl := Option.some.inj hstored
  rcases write_cases hw with ⟨u, rfl, hsame⟩ | ⟨u, rfl⟩
  · exact absurd hsame hne
  · exact ⟨u, hw, rfl, rfl⟩

/-- Such a write leaves a new version. -/
theorem newVersion_of_version {parent : Option VersionId} {u : FileRecord H}
    (hversioned : versioned = true)
    (hw : .version parent u ∈ reconcileWrites versioned config newId used db diff snapshot) :
    ∃ r, NewVersion db db' u.relativePath r := by
  subst hversioned
  have hwritten := h.allWritten hkeyed
  obtain ⟨clock, hstored, -⟩ := hwritten.inside _ hw
  refine ⟨_, hstored, ?_⟩
  rcases write_cases hw with ⟨_, heq, -⟩ | ⟨u', heq⟩
  · cases heq
  · cases heq
    exact (hwritten.parent _ _ hw).2

theorem mem_newPath (hversioned : versioned = true) (p : Path) :
    p ∈ (reconcileWrites versioned config newId used db diff snapshot).filterMap Write.newPath ↔
      ∃ r, NewVersion db db' p r := by
  rw [List.mem_filterMap]
  constructor
  · rintro ⟨w, hw, hnew⟩
    cases w with
    | record => cases hnew
    | version parent u =>
      cases hnew
      exact h.newVersion_of_version hkeyed hversioned hw
  · rintro ⟨r, hnew⟩
    obtain ⟨u, hu, rfl, -⟩ := h.exists_version hkeyed hversioned hnew
    exact ⟨_, hu, rfl⟩

/-- The writes that give a path a new version come in the order of `newPaths`. -/
theorem newPaths_eq (hversioned : versioned = true) :
    (reconcileWrites versioned config newId used db diff snapshot).filterMap Write.newPath =
      newPaths snapshot db db' := by
  have hmem := h.mem_newPath hkeyed hversioned
  -- One list is a part of the other, and the other has nothing else.
  have hsublist : ((reconcileWrites versioned config newId used db diff snapshot).filterMap
      Write.newPath).Sublist (newPaths snapshot db db') := by
    rw [← List.filter_eq_self.mpr fun p hp =>
      decide_eq_true (newVersion_iff.mp ((hmem p).mp hp))]
    exact (newPath_sublist.trans (h.paths_sublist hkeyed)).filter _
  have hnodup : (newPaths snapshot db db').Nodup := (h.visited_nodup hkeyed).filter _
  refine hsublist.eq_of_length_le (hnodup.subperm fun p hp => ?_).length_le
  exact (hmem p).mpr (newVersion_iff.mpr (by simpa using (List.mem_filter.mp hp).2))

/-! ### The whole of it -/

theorem reconciled : Reconciled versioned snapshot db db' := by
  have hhash := h.hashed hkeyed
  have hdescribes : ∀ entry ∈ snapshot, ∀ r : FileRecord H,
      isSameContent entry r = .ok true ↔ Describes r entry := by
    intro entry hentry r
    obtain ⟨same, hsame, hiff⟩ := isSameContent_eq_ok r (hhash entry hentry)
    rw [hsame, ← hiff]
    exact ⟨fun heq => Except.ok.inj heq, fun heq => congrArg _ heq⟩
  refine ⟨fun entry hentry => ?_, fun p r hr hlive => ?_, fun p r hr hlive habsent => ?_,
    fun entry hentry r hr hsame => ?_, fun hversioned p r hnew => ?_, fun hversioned => ?_⟩
  · rcases h.outcome hkeyed hentry with ⟨r, hr, -, hsame, hfind⟩ | ⟨-, k, clock, hfind, -⟩
    · obtain ⟨hkind, hcontent⟩ := (hdescribes entry hentry r).mp hsame
      refine ⟨_, hfind, hkind, rfl, rfl, fun hcase => ?_⟩
      cases hfile : entry.isFile with
      | true => exact (hcontent hfile).2
      | false =>
        have hunhashed := hcase.resolve_left (by rw [hfile]; exact Bool.false_ne_true)
        rw [SnapshotEntry.kind, hfile, if_neg Bool.false_ne_true] at hkind
        exact (hunhashed.2 _ r hr hkind).trans (hunhashed.1 entry hentry hfile).symm
    · exact ⟨_, hfind, rfl, rfl, rfl, fun _ => rfl⟩
  -- a live record without an entry is deleted, and a deleted one is a tombstone
  · by_contra habsent
    push Not at habsent
    by_cases hdeleted : p ∈ diff.deletedPaths
    · obtain ⟨t, ht, htombstone⟩ := h.tombstoned hkeyed hdeleted
      rw [hr] at ht
      exact hlive (Option.some.inj ht ▸ htombstone)
    · rw [h.untouched hkeyed hdeleted fun u hu heq => ?_] at hr
      · exact hdeleted (((h.diffOf hkeyed).deleted p).mpr
          ⟨r, Database.mem_listFileRecords.mpr ⟨p, hr⟩, hkeyed p r hr, hlive, habsent⟩)
      · obtain ⟨e, he, hepath⟩ := List.mem_map.mp
          ((h.upserts_sublist hkeyed).subset (List.mem_map_of_mem hu))
        exact habsent e he (hepath.trans heq)
  · exact h.tombstoned hkeyed (((h.diffOf hkeyed).deleted p).mpr
      ⟨r, Database.mem_listFileRecords.mpr ⟨p, hr⟩, hkeyed p r hr, hlive, habsent⟩)
  · rcases h.outcome hkeyed hentry with ⟨r', hr', -, -, hfind⟩ | ⟨hnone, -⟩
    · cases hr.symm.trans hr'
      exact ⟨_, hfind, rfl, rfl, rfl⟩
    · rcases hnone r hr with htombstone | hne
      · exact absurd (hsame.1.symm.trans htombstone) (Node.kind_ne_tombstone entry)
      · exact absurd ((hdescribes entry hentry r).mpr hsame) hne
  · obtain ⟨u, hu, rfl, hversion⟩ := h.exists_version hkeyed hversioned hnew
    rw [← hversion]
    exact ((h.allWritten hkeyed).parent _ u hu).1
  · have hwritten := h.allWritten hkeyed
    rw [← h.newPaths_eq hkeyed hversioned]
    exact ⟨h.mem_newPath hkeyed hversioned, hwritten.clocks, hwritten.later⟩

end Ran

/-! ### The second time

When the database is what the snapshot says there is no difference left, and nothing is written. -/

omit [ContentHash H] in
theorem Write.keyed_stored (w : Write H) (clock : Nat) :
    (w.stored clock).relativePath = w.path := by
  cases w <;> rfl

theorem Ran.keyed (h : Ran versioned config newId used snapshot db db' diff)
    (hkeyed : db.Keyed) : db'.Keyed := by
  intro p r hr
  have hwritten := h.allWritten hkeyed
  by_cases hmem : p ∈ (reconcileWrites versioned config newId used db diff snapshot).map Write.path
  · obtain ⟨w, hw, rfl⟩ := List.mem_map.mp hmem
    obtain ⟨clock, hstored, -⟩ := hwritten.inside w hw
    rw [hr] at hstored
    rw [Option.some.inj hstored, Write.keyed_stored]
  · rw [hwritten.outside p hmem] at hr
    exact hkeyed p r hr

/-- The parts of `Apply` before the transaction, if nothing has changed. -/
theorem nothing_to_do (hkeyed : db'.Keyed)
    (hsorted : Merge.Sorted SnapshotEntry.relativePath snapshot) (hhash : Hashed snapshot)
    (hreconciled : Reconciled versioned snapshot db db') (config : ReconcileConfig)
    (newId : Nat → VersionId) (used : Nat) :
    diffManifest snapshot db'.listFileRecords = .ok ⟨[], []⟩ ∧
      upsertsOf config newId used db'.listFileRecords [] snapshot = ([], used) := by
  have hspec := diffManifest_spec snapshot db'.listFileRecords hhash
  -- the first pass has left a record that describes each entry
  have hlive : ∀ entry ∈ snapshot, ∃ r ∈ db'.listFileRecords, r.relativePath = entry.relativePath ∧
      Describes r entry ∧ r.mtimeNs = entry.mtimeNs ∧ r.size = entry.size := by
    intro entry hentry
    obtain ⟨r, hr, hkind, hsize, hmtime, hcontent⟩ := hreconciled.live entry hentry
    exact ⟨r, Database.mem_listFileRecords.mpr ⟨_, hr⟩, hkeyed _ r hr,
      ⟨hkind, fun hfile => ⟨hsize, hcontent (.inl hfile)⟩⟩, hmtime, hsize⟩
  constructor
  · cases hdiff : diffManifest snapshot db'.listFileRecords with
    | error e =>
      rcases hspec.1.mp ⟨e, hdiff⟩ with hnot | hnot
      · exact absurd hsorted.nodup hnot
      · exact absurd hkeyed.sorted.nodup hnot
    | ok diff =>
      have hisDiff := hspec.2.1 diff hdiff
      have hchanged : diff.createdOrChanged = [] := by
        refine List.eq_nil_iff_forall_not_mem.mpr fun entry hentry => ?_
        obtain ⟨hmem, hnone⟩ := (hisDiff.changed entry).mp hentry
        obtain ⟨r, hr, hpath, hdescribes, -⟩ := hlive entry hmem
        exact hnone ⟨r, hr, hpath, hdescribes⟩
      have hdeleted : diff.deletedPaths = [] := by
        refine List.eq_nil_iff_forall_not_mem.mpr fun p hp => ?_
        obtain ⟨⟨r, hr, rfl, hkind⟩, habsent⟩ := (hisDiff.deleted p).mp hp
        obtain ⟨q, hq⟩ := Database.mem_listFileRecords.mp hr
        obtain ⟨entry, hentry, hpath⟩ := hreconciled.only q r hq hkind
        exact habsent entry hentry (hpath.trans (hkeyed q r hq).symm)
      obtain ⟨createdOrChanged, deletedPaths⟩ := diff
      obtain rfl : createdOrChanged = [] := hchanged
      obtain rfl : deletedPaths = [] := hdeleted
      rfl
  · rw [upsertsOf_eq config newId hkeyed.sorted .nil hsorted]
    refine upsertsBy_eq_nil fun entry hentry => ⟨rfl, ?_⟩
    obtain ⟨r, hr, hpath, -, hmtime, hsize⟩ := hlive entry hentry
    exact ⟨r, hkeyed.sorted.find?_eq_some_iff.mpr ⟨hr, hpath⟩, hsize, hmtime⟩

/-! ## Statement by statement

The transaction is opened, the statements follow one another, and any of them can fail.  What the
connection does then is SQLite's promise: the tables are as they were. -/

open Exec Transaction

/-- A statement that returns nothing. -/
def execute (fault : Nat → Option Error) (f : Database H → Except Error (Database H)) :
    Exec (Connection (Database H)) Error Unit :=
  statement fault fun db => (f db).map fun db => ((), db)

/-- One round of either loop: the clock, the lineage, the record. -/
def Write.execute (fault : Nat → Option Error) :
    Write H → Exec (Connection (Database H)) Error Unit
  | .record r => VeritasSync.execute fault fun db => db.upsertFileRecord r
  | .version parent r => do
    let clock ← statement fault fun db => db.advanceLogicalClock 0
    VeritasSync.execute fault fun db =>
      db.recordCreation ⟨r.versionId, parent, r.relativePath, r.originDeviceId, clock⟩
    VeritasSync.execute fault fun db => db.upsertFileRecord { r with logicalClock := clock }

/-- `SnapshotReconciler::Apply`, on a connection. -/
def apply (fault : Nat → Option Error) (versioned : Bool) (snapshot : List (SnapshotEntry H))
    (config : ReconcileConfig) (newId : Nat → VersionId) (used : Nat) :
    Exec (Connection (Database H)) Error (ReconcileResult × Nat) := do
  if config.taskId = [] ∨ config.originDeviceId = [] ∨ config.nowMs ≤ 0 then
    raise (.invalidArgument "reconciliation identity and timestamp are required")
  if !(snapshot.map SnapshotEntry.relativePath).Pairwise (· ≤ ·) then
    raise (.invalidArgument "reconciliation snapshot must be path-sorted")
  let known := (← state).db.listFileRecords
  let previous := (← state).db.records.find
  let diff ← check fun _ => diffManifest snapshot known
  let result := ⟨diff.createdOrChanged.length, diff.deletedPaths.length⟩
  let (upserts, used) := upsertsOf config newId used known diff.createdOrChanged snapshot
  if upserts = [] ∧ diff.deletedPaths = [] then return (result, used)
  inTransaction fault do
    (upserts.map (upsertWrite versioned previous)).forM (Write.execute fault)
    (deleteWrites versioned config previous newId used diff.deletedPaths).forM
      (Write.execute fault)
  return (result, used + diff.deletedPaths.length)

section Statements

variable {fault : Nat → Option Error}

omit [ContentHash H] in
theorem implements_execute (f : Database H → Except Error (Database H)) :
    Implements fault (execute fault f) fun db => (f db).map fun db => ((), db) :=
  implements_statement _

omit [ContentHash H] in
theorem Write.implements_execute (w : Write H) :
    Implements fault (w.execute fault) fun db => (w.run db).map fun db => ((), db) := by
  cases w with
  | record r => exact VeritasSync.implements_execute _
  | version parent r =>
    refine ((implements_statement _).bind fun clock => (VeritasSync.implements_execute _).bind
      fun _ => VeritasSync.implements_execute _).congr fun db => ?_
    show (recordNewVersion db parent r).map _ = _
    rw [recordNewVersion]
    cases db.advanceLogicalClock 0 with
    | error e => rfl
    | ok clocked =>
      show Except.map _ (clocked.2.recordCreation _ >>= fun db => db.upsertFileRecord _) =
        ((clocked.2.recordCreation _).map _ >>= _)
      cases clocked.2.recordCreation
        ⟨r.versionId, parent, r.relativePath, r.originDeviceId, clocked.1⟩ with
      | error e => rfl
      | ok db2 => rfl

omit [ContentHash H] in
/-- The rounds of a loop together. -/
theorem implements_forM (ws : List (Write H)) :
    Implements fault (ws.forM (Write.execute fault)) fun db =>
      (runAll db ws).map fun db => (PUnit.unit, db) := by
  induction ws with
  | nil => exact implements_pure _
  | cons w ws ih =>
    refine (w.implements_execute.bind fun _ => ih).congr fun db => ?_
    rw [runAll]
    cases w.run db with
    | error e => rfl
    | ok db1 => rfl

omit [ContentHash H] in
/-- The body of the transaction. -/
theorem implements_loops (ws ws' : List (Write H)) :
    Implements fault (do
        ws.forM (Write.execute fault)
        ws'.forM (Write.execute fault)) fun db =>
      (runAll db (ws ++ ws')).map fun db => (PUnit.unit, db) := by
  refine ((implements_forM ws).bind fun _ => implements_forM ws').congr fun db => ?_
  rw [runAll_append]
  cases runAll db ws with
  | error e => rfl
  | ok db1 => rfl

/-- A reconciliation whose writes succeed returns. -/
theorem reconcile_of_writes
    (hconfig : ¬ (config.taskId = [] ∨ config.originDeviceId = [] ∨ config.nowMs ≤ 0))
    (hsorted : (snapshot.map SnapshotEntry.relativePath).Pairwise (· ≤ ·))
    (hdiff : diffManifest snapshot db.listFileRecords = .ok diff)
    (hwrites : runAll db (reconcileWrites versioned config newId used db diff snapshot) =
      .ok db') :
    reconcile versioned db snapshot config newId used =
      .ok ((⟨diff.createdOrChanged.length, diff.deletedPaths.length⟩,
        (upsertsOf config newId used db.listFileRecords diff.createdOrChanged snapshot).2 +
          diff.deletedPaths.length), db') := by
  rw [reconcileWrites] at hwrites
  dsimp only at hwrites
  rw [runAll_append] at hwrites
  obtain ⟨db1, hupserts, hdeletes⟩ := ok_of_bind hwrites
  rw [reconcile, if_neg hconfig, if_neg (by simpa using hsorted)]
  dsimp only
  rw [hdiff]
  show (reconcileUpserts _ _ _ _ >>= fun db1 => _) = _
  rw [reconcileUpserts_eq, hupserts]
  show (reconcileDeletes _ _ _ _ _ _ _ >>= fun r => _) = _
  rw [reconcileDeletes_eq, hdeletes]
  rfl

variable (fault versioned snapshot config newId used) in
/-- **`Apply` on a connection** does what `reconcile` does at once, or nothing.  The statements of
the transaction are counted, and any of them may fail. -/
theorem wp_apply (c : Connection (Database H)) (hidle : c.Idle) :
    Wp (apply fault versioned snapshot config newId used)
      (fun r c' => reconcile versioned c.db snapshot config newId used = .ok (r, c'.db) ∧ c'.Idle)
      (fun _ c' => c'.db = c.db ∧ c'.Idle) c := by
  rw [apply]
  refine wp_ite (fun _ => ⟨rfl, hidle⟩) fun hconfig => ?_
  refine wp_ite (fun _ => ⟨rfl, hidle⟩) fun hsorted => ?_
  rw [Bool.not_eq_true', decide_eq_false_iff_not, not_not] at hsorted
  rw [wp_bind, wp_state, wp_bind, wp_state, wp_bind]
  refine wp_check (fun _ _ => ⟨rfl, hidle⟩) fun diff hdiff => ?_
  dsimp only
  refine wp_ite (fun hnothing => ?_) fun _ => ?_
  · have hempty : reconcileWrites versioned config newId used c.db diff snapshot = [] := by
      rw [reconcileWrites]
      dsimp only
      rw [hnothing.1, hnothing.2]
      rfl
    have hreturns := reconcile_of_writes hconfig hsorted hdiff
      (show runAll c.db (reconcileWrites versioned config newId used c.db diff snapshot) =
        .ok c.db by rw [hempty]; rfl)
    exact ⟨by simpa only [hnothing.2, List.length_nil, Nat.add_zero] using hreturns, hidle⟩
  · rw [wp_bind]
    refine (implements_loops _ _).wp_inTransaction hidle (fun _ c' hrun hidle' => ?_)
      fun _ _ hdb hidle' => ⟨hdb, hidle'⟩
    obtain ⟨db', hwrites, hpair⟩ := ok_of_map hrun
    cases hpair
    exact ⟨reconcile_of_writes hconfig hsorted hdiff hwrites, hidle'⟩

/-- A call that has nothing to do returns without a transaction. -/
theorem apply_of_nothing {c : Connection (Database H)}
    (hconfig : ¬ (config.taskId = [] ∨ config.originDeviceId = [] ∨ config.nowMs ≤ 0))
    (hsorted : (snapshot.map SnapshotEntry.relativePath).Pairwise (· ≤ ·))
    (hdiff : diffManifest snapshot c.db.listFileRecords = .ok ⟨[], []⟩)
    (hupserts : upsertsOf config newId used c.db.listFileRecords [] snapshot = ([], used)) :
    apply fault versioned snapshot config newId used c = (.ok (⟨0, 0⟩, used), c) := by
  have hwp : Wp (apply fault versioned snapshot config newId used)
      (fun r c' => r = (⟨0, 0⟩, used) ∧ c' = c) (fun _ _ => False) c := by
    rw [apply]
    refine wp_ite (fun h => absurd h hconfig) fun _ => ?_
    refine wp_ite (fun h => absurd hsorted (by simpa using h)) fun _ => ?_
    rw [wp_bind, wp_state, wp_bind, wp_state, wp_bind]
    refine wp_check_ok hdiff ?_
    dsimp only
    rw [hupserts]
    exact ⟨rfl, rfl⟩
  rw [Wp] at hwp
  rcases hrun : apply fault versioned snapshot config newId used c with ⟨e | r, c'⟩
  · rw [hrun] at hwp
    exact hwp.elim
  · rw [hrun] at hwp
    rw [hwp.1, hwp.2]

end Statements

end Reconciled

open Transaction in
/-- **`SnapshotReconciler::Apply`**: whatever statements the storage fails, it either returns and
the database is what the snapshot says, and then another call with the same snapshot changes
nothing; or it throws and the database is what it was. -/
theorem apply_reconciled {H : Type} [ContentHash H] (fault : Nat → Option Error) (versioned : Bool)
    (snapshot : List (SnapshotEntry H)) (config : ReconcileConfig) (newId : Nat → VersionId)
    (used : Nat) (c c' : Connection (Database H)) (hkeyed : c.db.Keyed) (hidle : c.Idle)
    {result : Except Error (ReconcileResult × Nat)}
    (hrun : apply fault versioned snapshot config newId used c = (result, c')) :
    c'.Idle ∧ (∀ e, result = .error e → c'.db = c.db) ∧
    ∀ r, result = .ok r → Reconciled versioned snapshot c.db c'.db ∧
      ∀ (fault' : Nat → Option Error) (config' : ReconcileConfig) (newId' : Nat → VersionId)
        (used' : Nat),
        config'.taskId ≠ [] → config'.originDeviceId ≠ [] → 0 < config'.nowMs →
        apply fault' versioned snapshot config' newId' used' c' = (.ok (⟨0, 0⟩, used'), c') := by
  have hwp := wp_apply versioned snapshot config newId used fault c hidle
  rw [Exec.Wp, hrun] at hwp
  cases result with
  | error e => exact ⟨hwp.2, fun _ _ => hwp.1, by rintro _ ⟨⟩⟩
  | ok r =>
    obtain ⟨result, used'⟩ := r
    obtain ⟨hreconcile, hidle'⟩ := hwp
    obtain ⟨diff, hran⟩ := ran_of_reconcile hreconcile
    have hreconciled := hran.reconciled hkeyed
    refine ⟨hidle', by rintro _ ⟨⟩, fun _ _ => ⟨hreconciled,
      fun fault' config' newId' used'' htask horigin hnow => ?_⟩⟩
    obtain ⟨hdiff, hupserts⟩ := nothing_to_do (hran.keyed hkeyed) hran.sorted (hran.hashed hkeyed)
      hreconciled config' newId' used''
    have hconfig : ¬ (config'.taskId = [] ∨ config'.originDeviceId = [] ∨ config'.nowMs ≤ 0) :=
      not_or.mpr ⟨htask, not_or.mpr ⟨horigin, not_le.mpr hnow⟩⟩
    exact apply_of_nothing hconfig
      (List.pairwise_map.mpr hran.sorted.le) hdiff hupserts

/-- A database that knows a file. -/
def oneFile : Database Bytes :=
  { Database.empty with
    records := OrdMap.empty.insert (ascii "g")
      ⟨[1], ascii "g", .file, 1, 0, some [2], [2], [1], 1, none⟩ }

/-- A snapshot that has another one, in a directory. -/
def anotherFile : List (SnapshotEntry Bytes) :=
  [⟨ascii "d", false, 0, 0, none⟩, ⟨ascii "d/f", true, 1, 0, some [1]⟩]

/-- The snapshot is applied. -/
def anotherRun : Except Error (ReconcileResult × Nat) × Transaction.Connection (Database Bytes) :=
  apply (fun _ => none) true anotherFile ⟨[1], [1], 0, 1⟩ (fun k => [9, UInt8.ofNat k]) 0
    ⟨oneFile, none, 0⟩

theorem apply_reconciled_anotherFile : Reconciled true anotherFile oneFile anotherRun.2.db ∧
    newPaths anotherFile oneFile anotherRun.2.db = [ascii "d", ascii "d/f", ascii "g"] := by
  have hkeyed : oneFile.Keyed := by
    intro p r hr
    rw [oneFile, OrdMap.find_insert] at hr
    split at hr
    · rename_i hp
      rw [← Option.some.inj hr, hp]
    · cases hr
  have hok : anotherRun.1.isOk = true := by decide +kernel
  obtain ⟨r, hr⟩ : ∃ r, anotherRun.1 = .ok r := by
    cases hresult : anotherRun.1 with
    | error e =>
      rw [hresult] at hok
      cases hok
    | ok r => exact ⟨r, rfl⟩
  have hall := apply_reconciled (fun _ => none) true anotherFile ⟨[1], [1], 0, 1⟩
    (fun k => [9, UInt8.ofNat k]) 0 ⟨oneFile, none, 0⟩ anotherRun.2 hkeyed rfl
    (Prod.mk.eta (p := anotherRun)).symm
  exact ⟨(hall.2.2 r hr).1, by decide +kernel⟩

end VeritasSync
