import VeritasSync.Sync.Reconciliation

/-!
# Conflict copies and the scans

A conflict copy is a file that the user has to look at, not one to be synchronized: `RefreshLocal`
and `PerformScan` drop everything from the snapshot that is named like one.  The two ways to scan a
task without its runtime do not: they record a copy as a file of the task, unless the walk does not
come to it (a symbolic link, or what lies below a directory that may not be listed) or the rules
ignore it, and the next scan of the first two kinds then takes it for deleted.

## What is here

* `LeavesCopies` — a scan has recorded no conflict copy.
* `leavesCopies_refreshLocal`, `leavesCopies_performScan` — the first two, however they end.
* `CopiesRecorded` — when there is nothing to record: every copy that the walk comes to has a record
  that a scan of it leaves as it is.
* `conflict_copies_stay_out` — **which scans leave conflict copies alone**: the first two always,
  the others exactly when there is nothing to record.
* `scanTask_records_copy` — a copy that the others do record.

That a scan must leave copies alone is written down in a comment next to the runtime's scan: they
are preserved artifacts, not new contenders.  The two scans without a runtime go through the same
reconciliation with a snapshot from which nothing has been dropped.
-/

set_option autoImplicit false

namespace VeritasSync

namespace Node

open Exec

variable {H : Type}

/-- No live record of a conflict copy has been written. -/
def LeavesCopies (before after : Database H) : Prop :=
  ∀ p r, isConflictPath p = true → after.records.find p = some r → r.kind ≠ .tombstone →
    before.records.find p = some r

theorem LeavesCopies.refl (db : Database H) : LeavesCopies db db := fun _ _ _ hr _ => hr

/-- A record is stored that is a tombstone, or is not one of a conflict copy. -/
theorem LeavesCopies.insert {before db db' : Database H} (h : LeavesCopies before db) {p : Path}
    {r : FileRecord H} (hdb : db'.records = db.records.insert p r)
    (hr : isConflictPath p = false ∨ r.kind = .tombstone) : LeavesCopies before db' := by
  intro q found hconflict hfound hlive
  rw [hdb] at hfound
  by_cases hq : q = p
  · subst hq
    rw [OrdMap.find_insert_self] at hfound
    cases hfound
    rcases hr with hr | hr
    · rw [hconflict] at hr
      cases hr
    · exact absurd hr hlive
  · rw [OrdMap.find_insert_of_ne _ _ hq] at hfound
    exact h q found hconflict hfound hlive

theorem LeavesCopies.congr {before db db' : Database H} (h : LeavesCopies before db)
    (hdb : db'.records = db.records) : LeavesCopies before db' := by
  rw [LeavesCopies, hdb]
  exact h

variable [ContentHash H] {n : Node H}

/-! ## The scans that drop them -/

/-- **`RefreshLocal` records no conflict copy**, however it ends.  The snapshot has been filtered,
so nothing in it is a copy. -/
theorem leavesCopies_refreshLocal (hkeyed : n.db.Keyed) :
    LeavesCopies n.db (refreshLocal n).2.db := by
  refine of_wp (I := fun n' : Node H => LeavesCopies n.db n'.db) ?_
  have hstart := LeavesCopies.refl n.db
  rw [refreshLocal, wp_bind, wp_state]
  refine wp_ite (fun _ => hstart) fun _ => ?_
  rw [wp_bind]
  refine wp_check (fun _ _ => hstart) fun hash _ => wp_ite (fun _ => hstart) fun _ => ?_
  rw [wp_bind]
  refine wp_check (fun _ _ => hstart) fun snapshot hsnapshot => wp_of ?_
  obtain ⟨rules, -, hsorted, hmem⟩ := localSnapshot_eq_ok hsnapshot
  rw [refreshEntries_eq hkeyed.sorted hsorted, refreshDeletions_eq hsorted hkeyed.sorted]
  refine within_bind (R := Keeps fun n' : Node H => LeavesCopies n.db n'.db) ?_ (fun _ => ?_) n
    hstart
  · refine within_forM fun entry hentry => within_when fun _ => keeps_of_wp fun n' hn' => ?_
    refine wp_mono (wp_recordChange _ entry n') ?_ fun _ _ h => hn'.congr h
    rintro _ n'' ⟨r, -, hrecords⟩
    obtain ⟨p, node, -, -, hconflict, rfl⟩ := (hmem entry).mp hentry
    rw [Folder.snapshotEntry_relativePath] at hrecords
    exact hn'.insert hrecords (.inl hconflict)
  refine within_bind (within_forM fun record _ => within_when fun _ => keeps_of_wp
    fun n' hn' => ?_) fun _ => ?_
  · refine wp_mono (wp_recordDeletion record n') ?_ fun _ _ h => hn'.congr h
    rintro _ n'' ⟨r, htombstone, hrecords⟩
    exact hn'.insert hrecords (.inr htombstone)
  refine within_bind (within_update fun n' hn' => hn') fun _ => within_when fun _ n' hn' => ?_
  exact hn'.congr (congrArg Database.records (announces_sendManifest n').db)

/-- **`PerformScan` records no conflict copy**, however it ends.  The filter is the same one. -/
theorem leavesCopies_performScan (hkeyed : n.db.Keyed) :
    LeavesCopies n.db (performScan n).2.db := by
  refine of_wp (I := fun n' : Node H => LeavesCopies n.db n'.db) ?_
  have hstart := LeavesCopies.refl n.db
  rw [performScan, wp_bind]
  refine wp_check (fun _ _ => hstart) fun hash _ => ?_
  rw [wp_bind]
  refine wp_check (fun _ _ => hstart) fun snapshot hsnapshot => ?_
  rw [wp_bind, wp_state]
  refine wp_ite (fun _ => hstart) fun _ => wp_ite (fun _ => hstart) fun _ => ?_
  rw [wp_bind]
  refine wp_dbGet hstart (fun _ _ => hstart) fun result db hdb => ?_
  intro p r hconflict hr hlive
  obtain ⟨rules, -, -, hmem⟩ := localSnapshot_eq_ok hsnapshot
  obtain ⟨diff, hran⟩ := ran_of_reconcile hdb
  obtain ⟨entry, hentry, rfl⟩ := (hran.reconciled hkeyed).only p r hr hlive
  obtain ⟨p, node, -, -, hvisible, rfl⟩ := (hmem entry).mp hentry
  rw [Folder.snapshotEntry_relativePath, hvisible] at hconflict
  cases hconflict

/-! ## The others -/

/-- The path has a live record that a scan of the entry does not change. -/
def RecordedAs (db : Database H) (entry : SnapshotEntry H) : Prop :=
  ∃ r, db.records.find entry.relativePath = some r ∧ r.kind ≠ .tombstone ∧
    isSameContent entry r = .ok true ∧ r.size = entry.size ∧ r.mtimeNs = entry.mtimeNs

/-- Every conflict copy that the walk comes to and that is not ignored is recorded as it is. -/
def CopiesRecorded (n : Node H) : Prop :=
  ∀ p node rules, isConflictPath p = true → n.folder.tree.find p = some node →
    ¬n.folder.Hidden p → n.folder.loadRules = .ok rules → rules.isIgnored p = .ok false →
      RecordedAs n.db (Folder.snapshotEntry n.env.mtime p node)

/-- The scan of `scan_task` has come to its end and stored the snapshot. -/
def Stored (deviceId : DeviceId) (n : Node H) (db : Database H) : Prop :=
  ∃ rules snapshot diff, n.folder.loadRules = .ok rules ∧
    n.folder.scan rules n.env.mtime = .ok snapshot ∧
    Ran true ⟨n.config.taskId, deviceId, 0, n.nowMs⟩ n.uuid n.uuidsUsed snapshot n.db db diff

/-- `scan_task` stores the snapshot or nothing. -/
theorem wp_scanTask (deviceId : DeviceId) (n : Node H) :
    Wp (scanTask deviceId) (fun _ n' => Stored deviceId n n'.db) (fun _ n' => n'.db = n.db) n := by
  rw [scanTask, wp_bind, wp_state, wp_bind]
  refine wp_check (fun _ _ => rfl) fun rules hrules => ?_
  rw [wp_bind]
  refine wp_check (fun _ _ => rfl) fun snapshot hsnapshot => ?_
  rw [wp_bind]
  refine wp_dbGet rfl (fun _ _ => rfl) fun result db hdb => ?_
  obtain ⟨diff, hran⟩ := ran_of_reconcile hdb
  exact ⟨rules, snapshot, diff, hrules, hsnapshot, hran⟩

/-- A record with the kind, the size and the hash of the entry. -/
theorem isSameContent_makeRecord {entry : SnapshotEntry H}
    (hhash : entry.isFile = true → entry.contentHash.isSome = true) (config : ReconcileConfig)
    (version : VersionId) (clock : Nat) :
    isSameContent entry { makeRecord entry config version with logicalClock := clock } =
      .ok true := by
  rw [isSameContent]
  cases hfile : entry.isFile with
  | false => simp [makeRecord, SnapshotEntry.kind, hfile]
  | true =>
    obtain ⟨hash, hcontent⟩ := Option.isSome_iff_exists.mp (hhash hfile)
    simp [makeRecord, SnapshotEntry.kind, hfile, hcontent]

/-- **The snapshot of `scan_task` leaves conflict copies alone** exactly when it has nothing to say
about them. -/
theorem leavesCopies_iff {deviceId : DeviceId} {db : Database H} (hkeyed : n.db.Keyed)
    (hstored : Stored deviceId n db) : LeavesCopies n.db db ↔ n.CopiesRecorded := by
  obtain ⟨rules, snapshot, diff, hrules, hsnapshot, hran⟩ := hstored
  constructor
  · intro hleaves p node rules' hconflict hnode hshown hrules' hignored
    cases hrules.symm.trans hrules'
    have hentry := (Folder.mem_scanEntries hsnapshot).mpr
      ⟨p, node, Folder.mem_listed.mpr ⟨hnode, hshown⟩, hignored, rfl⟩
    have hpath : (Folder.snapshotEntry n.env.mtime p node : SnapshotEntry H).relativePath = p :=
      Folder.snapshotEntry_relativePath _ _ _
    rcases hran.outcome hkeyed hentry with ⟨r, hr, hlive, hsame, hafter⟩ | ⟨hfresh, k, clock,
        hafter, -⟩
    · have hkept := hleaves _ _ (by rw [hpath]; exact hconflict) hafter hlive
      have heq := Option.some.inj (hr.symm.trans hkept)
      refine ⟨r, hr, hlive, hsame, ?_, ?_⟩
      · rw [heq]
      · rw [heq]
    · have hkept := hleaves _ _ (by rw [hpath]; exact hconflict) hafter (kind_ne_tombstone _)
      rcases hfresh _ hkept with htombstone | hne
      · exact absurd htombstone (kind_ne_tombstone _)
      · exact absurd (isSameContent_makeRecord (hran.hashed hkeyed _ hentry) _ _ _) hne
  · intro hrecorded p r hconflict hr hlive
    obtain ⟨entry, hentry, rfl⟩ := (hran.reconciled hkeyed).only p r hr hlive
    obtain ⟨q, node, hmem, hignored, rfl⟩ := (Folder.mem_scanEntries hsnapshot).mp hentry
    obtain ⟨hnode, hshown⟩ := Folder.mem_listed.mp hmem
    obtain ⟨old, hold, hkind, hsame, hsize, hmtime⟩ := hrecorded q node rules
      (by rwa [Folder.snapshotEntry_relativePath] at hconflict) hnode hshown hrules hignored
    rcases hran.outcome hkeyed hentry with ⟨r', hr', -, -, hafter⟩ | ⟨hfresh, -⟩
    · cases hold.symm.trans hr'
      rw [← hsize, ← hmtime] at hafter
      cases hr.symm.trans hafter
      exact hold
    · exact (hfresh old hold).elim (fun h => absurd h hkind) fun h => absurd hsame h

/-- **Which scans leave conflict copies alone.**  `RefreshLocal` and `PerformScan` always do; the
scans of a task without its runtime do if they fail, and otherwise exactly if every copy that the
walk comes to and that is not ignored is recorded as it is. -/
theorem conflict_copies_stay_out (hkeyed : n.db.Keyed) (deviceId : DeviceId) :
    LeavesCopies n.db (refreshLocal n).2.db ∧ LeavesCopies n.db (performScan n).2.db ∧
      (∀ e, (scanTask deviceId n).1 = .error e → LeavesCopies n.db (scanTask deviceId n).2.db) ∧
      ((scanTask deviceId n).1 = .ok () →
        (LeavesCopies n.db (scanTask deviceId n).2.db ↔ n.CopiesRecorded)) := by
  refine ⟨leavesCopies_refreshLocal hkeyed, leavesCopies_performScan hkeyed, fun e he => ?_,
    fun hok => leavesCopies_iff hkeyed (of_wp_ok (wp_scanTask deviceId n) hok)⟩
  have hwp := wp_scanTask deviceId n
  rw [Wp] at hwp
  rcases hscan : scanTask deviceId n with ⟨e' | u, n'⟩
  · rw [hscan] at hwp
    exact (LeavesCopies.refl n.db).congr (congrArg Database.records hwp)
  · rw [hscan] at he
    cases he

/-- A sample node whose folder has got a conflict copy. -/
def copyNode : Node Bytes :=
  { trackingNode with
    folder := .plain (fileFolder.tree.insert (ascii "f.conflict.1") (.file (ascii "old")))
      (by decide +kernel) [] }

theorem conflict_copies_stay_out_copy :
    LeavesCopies copyNode.db (refreshLocal copyNode).2.db ∧
      LeavesCopies copyNode.db (performScan copyNode).2.db ∧
      LeavesCopies trackingNode.db (scanTask (ascii "device") trackingNode).2.db := by
  have hcopy := conflict_copies_stay_out (n := copyNode) keyed_trackingNode (ascii "device")
  have htracking := conflict_copies_stay_out keyed_trackingNode (ascii "device")
  refine ⟨hcopy.1, hcopy.2.1, (htracking.2.2.2 (by decide +kernel)).mpr ?_⟩
  intro p node rules hconflict hnode
  have hall : ∀ e ∈ trackingNode.folder.tree.entries, isConflictPath e.1 = false := by
    decide +kernel
  rw [hall (p, node) (OrdMap.find_eq_some_iff.mp hnode)] at hconflict
  cases hconflict

/-- The copy is recorded as a file that the task synchronizes. -/
theorem scanTask_records_copy :
    ¬ ∀ (n : Node Bytes) (deviceId : DeviceId), n.db.Keyed →
      LeavesCopies n.db (scanTask deviceId n).2.db := by
  intro h
  have hbefore : copyNode.db.records.find (ascii "f.conflict.1") = none := by decide +kernel
  have hafter : ((scanTask (ascii "device") copyNode).2.db.records.find
      (ascii "f.conflict.1")).map FileRecord.kind = some .file := by decide +kernel
  obtain ⟨r, hr, hkind⟩ := Option.map_eq_some_iff.mp hafter
  have hkept := h copyNode (ascii "device") keyed_trackingNode _ r (by decide +kernel) hr
    (by rw [hkind]; decide)
  cases hbefore.symm.trans hkept

end Node

end VeritasSync
