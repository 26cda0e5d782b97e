import VeritasSync.Sync.Scan

/-!
# Tombstones

A tombstone makes the peer delete a file, so it should mean that the file is gone.  Both scans take
a path for gone that has a live record and is not in the snapshot.  But there are four more ways for
a path to be missing from the snapshot: a rule ignores it, it is named like a conflict copy, it is
or lies below a symbolic link, or it lies below a directory that may not be listed.  The scanner
reports none of them.

`Faithful` says what a scan may do with a path that is on disk, and `Visible` that the snapshot has
every tracked path that is on disk.  The second is enough for the first, however the scan ends, and
for a scan that ran to its end it is necessary too: `scan_faithful_iff`.

The two scans are written separately in the source, and so are the two halves of the proof.
`RefreshLocal` goes through the snapshot and then through the records, and each step of the two
loops keeps `KeepsRecords`; `PerformScan` computes a difference first, so there the work is to say
which records the difference holds (`diffOf_diffManifest`, `upsertOf_of_mem`).
-/

set_option autoImplicit false

namespace VeritasSync

variable {H : Type}

/-- A walk that succeeded has decided about every path. -/
theorem Folder.isIgnored_of_scanEntries [ContentHash H] {rules : IgnoreRules} {mtime : Path → Int}
    {l : List (Path × FsNode)} {snapshot : List (SnapshotEntry H)}
    (h : scanEntries rules mtime l = .ok snapshot) {p : Path} {node : FsNode}
    (hp : (p, node) ∈ l) : ∃ ignored, rules.isIgnored p = .ok ignored := by
  induction l generalizing snapshot with
  | nil => cases hp
  | cons pn l ih =>
    obtain ⟨ignored, hignored, h⟩ := ok_of_bind h
    obtain ⟨rest, hrest, -⟩ := ok_of_bind h
    rcases List.mem_cons.mp hp with rfl | hp
    · exact ⟨ignored, hignored⟩
    · exact ih hrest hp

namespace Node

open Exec

/-! ## Recording a version -/

theorem kind_ne_tombstone (entry : SnapshotEntry H) : entry.kind ≠ .tombstone := by
  rw [SnapshotEntry.kind]
  split <;> nofun

/-- What recording a new version does to the records. -/
theorem wp_createVersion_upsert {parent : Option VersionId} {path : Path}
    (record : VersionId × Nat → Node H → FileRecord H)
    (hpath : ∀ version n, (record version n).relativePath = path) (n : Node H) :
    Wp (do
      let version ← createVersion parent path
      let n ← Exec.state
      dbDo fun db => db.upsertFileRecord (record version n))
      (fun _ n' => ∃ r, (∃ version m, r = record version m) ∧
        n'.db.records = n.db.records.insert path r)
      (fun _ n' => n'.db.records = n.db.records) n := by
  rw [wp_bind, createVersion, wp_bind]
  refine wp_dbGet rfl (fun _ _ => rfl) fun clock db hdb => ?_
  obtain ⟨-, -, rfl⟩ := advanceLogicalClock_le hdb
  rw [wp_bind, wp_newUuidV4, wp_bind, wp_state, wp_bind]
  refine wp_dbDo rfl (fun _ _ => rfl) fun db hcreate => ?_
  have hrecords : db.records = n.db.records := by
    obtain ⟨-, lineage, rfl, -⟩ := Database.recordCreation_eq_ok hcreate
    rfl
  rw [wp_pure, wp_bind, wp_state]
  refine wp_dbDo hrecords (fun _ _ => hrecords) fun db' hupsert => ?_
  obtain ⟨-, rfl⟩ := Database.upsertFileRecord_eq_ok hupsert
  have hinsert : ∀ version m, db.records.insert (record version m).relativePath (record version m) =
      n.db.records.insert path (record version m) := fun version m => by rw [hpath, hrecords]
  exact ⟨_, ⟨_, _, rfl⟩, hinsert _ _⟩

theorem wp_recordChange (previous : Option (FileRecord H)) (entry : SnapshotEntry H) (n : Node H) :
    Wp (recordChange previous entry)
      (fun _ n' => ∃ r, r.kind = entry.kind ∧
        n'.db.records = n.db.records.insert entry.relativePath r)
      (fun _ n' => n'.db.records = n.db.records) n := by
  refine wp_mono (wp_createVersion_upsert
    (fun version n => changeRecord n.config entry version) (fun _ _ => rfl) n) ?_ fun _ _ h => h
  rintro _ n' ⟨r, ⟨version, m, rfl⟩, h⟩
  exact ⟨_, rfl, h⟩

theorem wp_recordDeletion (record : FileRecord H) (n : Node H) :
    Wp (recordDeletion record)
      (fun _ n' => ∃ r, r.kind = .tombstone ∧
        n'.db.records = n.db.records.insert record.relativePath r)
      (fun _ n' => n'.db.records = n.db.records) n := by
  refine wp_mono (wp_createVersion_upsert
    (fun version n => Database.tombstoneRecord n.config.taskId record.relativePath version.1
      n.config.deviceId version.2 n.nowMs) (fun _ _ => rfl) n) ?_ fun _ _ h => h
  rintro _ n' ⟨r, ⟨version, m, rfl⟩, h⟩
  exact ⟨_, rfl, h⟩

/-- The record of the path says that it was deleted. -/
def Tombstoned (p : Path) (db : Database H) : Prop :=
  ∃ r, db.records.find p = some r ∧ r.kind = .tombstone

theorem Tombstoned.insert {db db' : Database H} {p q : Path} (h : Tombstoned p db ∨ q = p)
    {r : FileRecord H} (hr : r.kind = .tombstone) (hdb : db'.records = db.records.insert q r) :
    Tombstoned p db' := by
  rw [Tombstoned, hdb, OrdMap.find_insert]
  by_cases hqp : p = q
  · rw [if_pos hqp]
    exact ⟨r, rfl, hr⟩
  · rw [if_neg hqp]
    exact h.resolve_right fun heq => hqp heq.symm

/-! ## What a scan may do

The four ways in which a path on disk can be missing from a snapshot are one predicate, `Shows`.
Nothing below looks at rules or links again. -/

/-- The scan has recorded that the path was deleted. -/
def Deletes (n n' : Node H) (p : Path) : Prop :=
  ∃ r, n'.db.records.find p = some r ∧ r.kind = .tombstone ∧ n.db.records.find p ≠ some r

/-- A scan shows the path, if it is on disk: the walk comes to it, it is not named like a conflict
copy, and no rule ignores it. -/
def Shows (n : Node H) (p : Path) : Prop :=
  ¬n.folder.Hidden p ∧ isConflictPath p = false ∧
    ∀ rules, n.folder.loadRules = .ok rules → rules.isIgnored p ≠ .ok true

/-- Every tracked path that is on disk shows up in a scan. -/
def Visible (n : Node H) : Prop :=
  ∀ p r, n.db.records.find p = some r → r.kind ≠ .tombstone → n.folder.tree.find p ≠ none →
    n.Shows p

variable [ContentHash H]

/-- What is on disk is what the record of the path describes. -/
def Unedited (n : Node H) (p : Path) : Prop :=
  ∃ node r, n.folder.tree.find p = some node ∧ n.db.records.find p = some r ∧
    sameSnapshot (Folder.snapshotEntry n.env.mtime p node) r

/-- The scan takes no path for deleted that is on disk, and makes no new version of a path that has
not been edited. -/
structure Faithful (n n' : Node H) : Prop where
  absent : ∀ p, n.Deletes n' p → n.folder.tree.find p = none
  version : ∀ p, n.Unedited p → versionsOf n'.db p = versionsOf n.db p

/-- What a faithful scan may leave as the record of a path that is on disk. -/
def Kept (n : Node H) (p : Path) (after : Option (FileRecord H)) : Prop :=
  after = n.db.records.find p ∨ ∃ r, after = some r ∧ r.kind ≠ .tombstone ∧
    (n.Unedited p → versionsOf n.db p = some r.versionId)

/-- The records of all paths on disk are kept. -/
def KeepsRecords (n : Node H) (db : Database H) : Prop :=
  ∀ p, n.folder.tree.find p ≠ none → n.Kept p (db.records.find p)

variable {n n' : Node H}

theorem keepsRecords_refl (n : Node H) : n.KeepsRecords n.db := fun _ _ => .inl rfl

theorem KeepsRecords.faithful (h : n.KeepsRecords n'.db) : n.Faithful n' := by
  constructor
  · rintro p ⟨r, hr, htombstone, hne⟩
    by_contra hdisk
    rcases h p hdisk with heq | ⟨r', heq, hkind, -⟩
    · exact hne (heq ▸ hr)
    · cases hr.symm.trans heq
      exact hkind htombstone
  · intro p hunedited
    have hdisk : n.folder.tree.find p ≠ none := by
      obtain ⟨node, r, hnode, -⟩ := hunedited
      simp [hnode]
    rcases h p hdisk with heq | ⟨r', heq, -, hversion⟩
    · rw [versionsOf, versionsOf, heq]
    · rw [hversion hunedited, versionsOf, heq, Option.map_some]

/-- A record is stored under a path that is not on disk, or may be stored there. -/
theorem KeepsRecords.insert {db db' : Database H} (h : n.KeepsRecords db) {p : Path}
    {r : FileRecord H} (hdb : db'.records = db.records.insert p r)
    (hr : n.folder.tree.find p ≠ none → n.Kept p (some r)) : n.KeepsRecords db' := by
  intro q hq
  rw [hdb, OrdMap.find_insert]
  by_cases hqp : q = p
  · rw [if_pos hqp]
    exact hqp ▸ hr (hqp ▸ hq)
  · rw [if_neg hqp]
    exact h q hq

theorem KeepsRecords.congr {db db' : Database H} (h : n.KeepsRecords db)
    (hdb : db'.records = db.records) : n.KeepsRecords db' := by
  rw [KeepsRecords, hdb]
  exact h

/-! ## `RefreshLocal` -/

/-- A scan that succeeded has decided about every path it came to. -/
theorem isIgnored_of_localSnapshot {snapshot : List (SnapshotEntry H)} {rules : IgnoreRules}
    (hsnapshot : n.localSnapshot = .ok snapshot) (hrules : n.folder.loadRules = .ok rules)
    {p : Path} {node : FsNode} (hnode : (p, node) ∈ n.folder.listed) :
    ∃ ignored, rules.isIgnored p = .ok ignored := by
  obtain ⟨rules', hrules', h⟩ := ok_of_bind hsnapshot
  cases hrules.symm.trans hrules'
  obtain ⟨scanned, hscanned, -⟩ := ok_of_bind h
  exact Folder.isIgnored_of_scanEntries hscanned hnode

/-- The snapshot has what is on disk and visible. -/
theorem mem_localSnapshot {snapshot : List (SnapshotEntry H)}
    (hsnapshot : n.localSnapshot = .ok snapshot) (hvisible : n.Visible) {p : Path}
    {r : FileRecord H} (hr : n.db.records.find p = some r) (hlive : r.kind ≠ .tombstone)
    (hdisk : n.folder.tree.find p ≠ none) : ∃ entry ∈ snapshot, entry.relativePath = p := by
  obtain ⟨hwalk, hconflict, hignored⟩ := hvisible p r hr hlive hdisk
  obtain ⟨rules, hrules, -, hmem⟩ := localSnapshot_eq_ok hsnapshot
  obtain ⟨node, hfind⟩ := Option.ne_none_iff_exists'.mp hdisk
  have hnode := Folder.mem_listed.mpr ⟨hfind, hwalk⟩
  refine ⟨Folder.snapshotEntry n.env.mtime p node,
    (hmem _).mpr ⟨p, node, hnode, ?_, hconflict, rfl⟩,
    Folder.snapshotEntry_relativePath _ _ _⟩
  obtain ⟨ignored, hp⟩ := isIgnored_of_localSnapshot hsnapshot hrules hnode
  cases ignored with
  | true => exact absurd hp (hignored rules hrules)
  | false => exact hp

theorem keepsRecords_refreshEntry {snapshot : List (SnapshotEntry H)}
    (hsnapshot : n.localSnapshot = .ok snapshot) (hkeyed : n.db.Keyed)
    {entry : SnapshotEntry H} (hentry : entry ∈ snapshot) :
    Within (Keeps fun n' => n.KeepsRecords n'.db) (refreshEntry n.db.listFileRecords entry) := by
  refine within_when fun hsame => keeps_of_wp fun n' hn' => ?_
  refine wp_mono (wp_recordChange _ entry n') ?_ fun _ _ h => hn'.congr h
  rintro _ n'' ⟨r, hkind, hrecords⟩
  refine hn'.insert hrecords fun hdisk => .inr ⟨r, rfl, hkind ▸ kind_ne_tombstone entry, ?_⟩
  rintro ⟨node, old, hnode, hold, hunedited⟩
  obtain ⟨rules, -, -, hmem⟩ := localSnapshot_eq_ok hsnapshot
  obtain ⟨p, node', hnode', -, -, rfl⟩ := (hmem entry).mp hentry
  rw [Folder.snapshotEntry_relativePath] at hnode hold hunedited
  cases hnode.symm.trans (Folder.mem_listed.mp hnode').1
  rw [Folder.snapshotEntry_relativePath, hkeyed.find?_listFileRecords, hold] at hsame
  exact absurd hunedited hsame

theorem keepsRecords_refreshRecord {snapshot : List (SnapshotEntry H)}
    (hsnapshot : n.localSnapshot = .ok snapshot) (hkeyed : n.db.Keyed) (hvisible : n.Visible)
    {record : FileRecord H} (hrecord : record ∈ n.db.listFileRecords) :
    Within (Keeps fun n' => n.KeepsRecords n'.db) (refreshRecord snapshot record) := by
  refine within_when fun hgone => keeps_of_wp fun n' hn' => ?_
  refine wp_mono (wp_recordDeletion record n') ?_ fun _ _ h => hn'.congr h
  rintro _ n'' ⟨r, -, hrecords⟩
  refine hn'.insert hrecords fun hdisk => absurd ?_ hgone
  rw [or_iff_not_imp_left]
  intro hlive
  obtain ⟨q, hq⟩ := Database.mem_listFileRecords.mp hrecord
  have hfind := hkeyed q record hq ▸ hq
  obtain ⟨entry, hentry, hpath⟩ := mem_localSnapshot hsnapshot hvisible hfind hlive hdisk
  exact List.find?_isSome.mpr ⟨entry, hentry, by simpa using hpath⟩

/-- **`RefreshLocal` is faithful** to what is visible, however it ends.  Each tombstone is written
for a record that the loop has not found in the snapshot, and what is missing there is not visible
or not there. -/
theorem faithful_refreshLocal (hkeyed : n.db.Keyed) (hvisible : n.Visible) :
    n.Faithful (refreshLocal n).2 := by
  refine KeepsRecords.faithful (of_wp (I := fun n' : Node H => n.KeepsRecords n'.db) ?_)
  have hstart := n.keepsRecords_refl
  rw [refreshLocal, wp_bind, wp_state]
  refine wp_ite (fun _ => hstart) fun _ => ?_
  rw [wp_bind]
  refine wp_check (fun _ _ => hstart) fun hash _ => wp_ite (fun _ => hstart) fun _ => ?_
  rw [wp_bind]
  refine wp_check (fun _ _ => hstart) fun snapshot hsnapshot => wp_of ?_
  obtain ⟨rules, -, hsorted, -⟩ := localSnapshot_eq_ok hsnapshot
  rw [refreshEntries_eq hkeyed.sorted hsorted, refreshDeletions_eq hsorted hkeyed.sorted]
  refine within_bind (R := Keeps fun n' : Node H => n.KeepsRecords n'.db) ?_ (fun _ => ?_) n hstart
  · exact within_forM fun entry hentry => keepsRecords_refreshEntry hsnapshot hkeyed hentry
  refine within_bind (within_forM fun record hrecord => ?_) fun _ => ?_
  · exact keepsRecords_refreshRecord hsnapshot hkeyed hvisible hrecord
  refine within_bind (within_update fun n' hn' => hn') fun _ => within_when fun _ n' hn' => ?_
  exact hn'.congr (congrArg Database.records (announces_sendManifest n').db)

omit [ContentHash H] in
/-- The second loop of `RefreshLocal` records the deletion of every live record that the snapshot
does not have. -/
theorem tombstoned_refreshRecords {snapshot : List (SnapshotEntry H)} {record : FileRecord H}
    (hlive : record.kind ≠ .tombstone)
    (hgone : ∀ entry ∈ snapshot, entry.relativePath ≠ record.relativePath)
    {known : List (FileRecord H)} (hrecord : record ∈ known) (n : Node H) :
    Wp (known.forM (refreshRecord snapshot))
      (fun _ n' => Tombstoned record.relativePath n'.db) (fun _ _ => True) n := by
  have hstep : ∀ r n', Tombstoned record.relativePath n'.db →
      Wp (refreshRecord snapshot r) (fun _ n'' => Tombstoned record.relativePath n''.db)
        (fun _ _ => True) n' := by
    intro r n' hn'
    refine wp_when (fun _ => ?_) fun _ => hn'
    refine wp_mono (wp_recordDeletion r n') ?_ fun _ _ _ => trivial
    rintro _ n'' ⟨t, ht, hrecords⟩
    exact Tombstoned.insert (.inl hn') ht hrecords
  induction known generalizing n with
  | nil => cases hrecord
  | cons r known ih =>
    show Wp (refreshRecord snapshot r >>= fun _ => known.forM (refreshRecord snapshot)) _ _ n
    rw [wp_bind]
    rcases List.mem_cons.mp hrecord with rfl | hrecord
    · have hfind : (snapshot.find? fun entry => entry.relativePath = record.relativePath) =
        none := by
        simpa using hgone
      refine wp_when (fun _ => ?_) fun hskip => absurd ?_ hskip
      · refine wp_mono (wp_recordDeletion record n) ?_ fun _ _ _ => trivial
        rintro _ n' ⟨t, ht, hrecords⟩
        refine wp_forM (I := fun n' => Tombstoned record.relativePath n'.db)
          (fun r _ n' hn' => hstep r n' hn') (Tombstoned.insert (.inr rfl) ht hrecords)
      · simp [hlive, hfind]
    · refine wp_mono (wp_of (I := fun _ => True) trivial) (fun _ n' _ => ih hrecord n')
        fun _ _ _ => trivial

/-- A path that is invisible and tracked is taken for deleted. -/
theorem tombstoned_refreshLocal (hkeyed : n.db.Keyed) (hpending : n.policyPending = false)
    (hok : (refreshLocal n).1 = .ok ()) {p : Path} {r : FileRecord H}
    (hr : n.db.records.find p = some r) (hlive : r.kind ≠ .tombstone)
    (hhidden : ∀ snapshot, n.localSnapshot = .ok snapshot →
      ∀ entry ∈ snapshot, entry.relativePath ≠ p) :
    Tombstoned p (refreshLocal n).2.db := by
  have hwp : Wp refreshLocal (fun _ n' => Tombstoned p n'.db) (fun _ _ => True) n := by
    rw [refreshLocal, wp_bind, wp_state, if_neg (by simp [hpending]), wp_bind]
    refine wp_check (fun _ _ => trivial) fun hash _ => wp_ite (fun _ => trivial) fun _ => ?_
    rw [wp_bind]
    refine wp_check (fun _ _ => trivial) fun snapshot hsnapshot => ?_
    obtain ⟨rules, -, hsorted, -⟩ := localSnapshot_eq_ok hsnapshot
    dsimp only
    rw [refreshDeletions_eq hsorted hkeyed.sorted, wp_bind]
    refine wp_mono (wp_of (I := fun _ => True) trivial) (fun _ n' _ => ?_) fun _ _ _ => trivial
    rw [wp_bind]
    have hpath : r.relativePath = p := hkeyed p r hr
    have hloop := tombstoned_refreshRecords hlive (hpath ▸ hhidden snapshot hsnapshot)
      (Database.mem_listFileRecords.mpr ⟨p, hr⟩) n'
    refine wp_mono hloop (fun _ n'' hn'' => ?_) fun _ _ _ => trivial
    rw [hpath] at hn''
    rw [wp_bind, wp_update]
    refine wp_when (fun _ => ?_) fun _ => hn''
    refine wp_mono (wp_of (announces_sendManifest
      { n'' with sourceFiles := sourceFilesOf snapshot })) (fun _ n3 hn3 => ?_) fun _ _ _ => trivial
    rw [hn3.db]
    exact hn''
  exact of_wp_ok hwp hok

/-! ## `PerformScan` -/

/-- What `DiffManifest` reports. -/
structure DiffOf (scanned : List (SnapshotEntry H)) (known : List (FileRecord H))
    (diff : ManifestDiff H) : Prop where
  deleted : ∀ p, p ∈ diff.deletedPaths ↔ ∃ r ∈ known, r.relativePath = p ∧ r.kind ≠ .tombstone ∧
    ∀ entry ∈ scanned, entry.relativePath ≠ p
  changed : ∀ entry, entry ∈ diff.createdOrChanged ↔ entry ∈ scanned ∧
    ∀ r ∈ known, r.relativePath = entry.relativePath → r.kind = .tombstone ∨
      isSameContent entry r ≠ .ok true
  sublist : diff.createdOrChanged.Sublist scanned

/-- The snapshot has been walked to its end. -/
theorem diffOf_nil_left (known : List (FileRecord H)) :
    DiffOf ([] : List (SnapshotEntry H)) known ⟨[], deletedPathsOf known⟩ := by
  refine ⟨fun p => ?_, by simp, List.Sublist.refl _⟩
  simp only [deletedPathsOf, List.mem_map, List.mem_filter, decide_eq_true_eq, List.not_mem_nil,
    IsEmpty.forall_iff, implies_true, and_true]
  constructor
  · rintro ⟨r, ⟨hr, hlive⟩, rfl⟩
    exact ⟨r, hr, rfl, hlive⟩
  · rintro ⟨r, hr, rfl, hlive⟩
    exact ⟨r, ⟨hr, hlive⟩, rfl⟩

section DiffStep

variable {entry : SnapshotEntry H} {record : FileRecord H} {scanned : List (SnapshotEntry H)}
  {known : List (FileRecord H)} {diff : ManifestDiff H}

/-- A path that has no record. -/
theorem DiffOf.created (h : DiffOf scanned known diff)
    (hknown : ∀ r ∈ known, r.relativePath ≠ entry.relativePath) :
    DiffOf (entry :: scanned) known
      { diff with createdOrChanged := entry :: diff.createdOrChanged } := by
  refine ⟨fun p => ?_, fun e => ?_, h.sublist.cons_cons _⟩
  · rw [h.deleted]
    refine exists_congr fun r => and_congr_right fun hr => and_congr_right fun hp => ?_
    have : entry.relativePath ≠ p := fun heq => hknown r hr (hp.trans heq.symm)
    simp [this]
  · simp only [List.mem_cons, h.changed]
    constructor
    · rintro (rfl | ⟨he, hsame⟩)
      · exact ⟨.inl rfl, fun r hr hp => absurd hp (hknown r hr)⟩
      · exact ⟨.inr he, hsame⟩
    · rintro ⟨rfl | he, hsame⟩
      · exact .inl rfl
      · exact .inr ⟨he, hsame⟩

/-- A record whose path the snapshot does not have. -/
theorem DiffOf.vanished (h : DiffOf scanned known diff)
    (hscanned : ∀ e ∈ scanned, e.relativePath ≠ record.relativePath) :
    DiffOf scanned (record :: known) (if record.kind ≠ .tombstone then
      { diff with deletedPaths := record.relativePath :: diff.deletedPaths } else diff) := by
  have hchanged : ∀ e, (e ∈ diff.createdOrChanged ↔ e ∈ scanned ∧ ∀ r ∈ record :: known,
      r.relativePath = e.relativePath → r.kind = .tombstone ∨ isSameContent e r ≠ .ok true) := by
    intro e
    rw [h.changed]
    refine and_congr_right fun he => ?_
    have : record.relativePath ≠ e.relativePath := fun heq => hscanned e he heq.symm
    simp [this]
  split
  · rename_i hlive
    refine ⟨fun p => ?_, hchanged, h.sublist⟩
    simp only [List.mem_cons, h.deleted]
    constructor
    · rintro (rfl | ⟨r, hr, hp⟩)
      · exact ⟨record, .inl rfl, rfl, hlive, hscanned⟩
      · exact ⟨r, .inr hr, hp⟩
    · rintro ⟨r, rfl | hr, hp, hp'⟩
      · exact .inl hp.symm
      · exact .inr ⟨r, hr, hp, hp'⟩
  · rename_i hlive
    refine ⟨fun p => ?_, hchanged, h.sublist⟩
    simp only [List.mem_cons, h.deleted]
    constructor
    · rintro ⟨r, hr, hp⟩
      exact ⟨r, .inr hr, hp⟩
    · rintro ⟨r, rfl | hr, hp, hp', hp''⟩
      · exact absurd hp' hlive
      · exact ⟨r, hr, hp, hp', hp''⟩

/-- A path on both sides. -/
theorem DiffOf.both (h : DiffOf scanned known diff) {same : Bool}
    (hpath : record.relativePath = entry.relativePath)
    (hsame : same = true ↔ record.kind ≠ .tombstone ∧ isSameContent entry record = .ok true)
    (hscanned : ∀ e ∈ scanned, e.relativePath ≠ entry.relativePath)
    (hknown : ∀ r ∈ known, r.relativePath ≠ entry.relativePath) :
    DiffOf (entry :: scanned) (record :: known) (if same then diff
      else { diff with createdOrChanged := entry :: diff.createdOrChanged }) := by
  have hdeleted : ∀ p, (p ∈ diff.deletedPaths ↔ ∃ r ∈ record :: known, r.relativePath = p ∧
      r.kind ≠ .tombstone ∧ ∀ e ∈ entry :: scanned, e.relativePath ≠ p) := by
    intro p
    rw [h.deleted]
    constructor
    · rintro ⟨r, hr, rfl, hlive, hp⟩
      refine ⟨r, List.mem_cons_of_mem _ hr, rfl, hlive, fun e he => ?_⟩
      rcases List.mem_cons.mp he with rfl | he
      · exact (hknown r hr).symm
      · exact hp e he
    · rintro ⟨r, hr, rfl, hlive, hp⟩
      rcases List.mem_cons.mp hr with rfl | hr
      · exact absurd hpath.symm (hp entry List.mem_cons_self)
      · exact ⟨r, hr, rfl, hlive, fun e he => hp e (List.mem_cons_of_mem _ he)⟩
  have htail : ∀ e, (e ∈ diff.createdOrChanged ↔ e ∈ scanned ∧ ∀ r ∈ record :: known,
      r.relativePath = e.relativePath → r.kind = .tombstone ∨ isSameContent e r ≠ .ok true) := by
    intro e
    rw [h.changed]
    refine and_congr_right fun he => ?_
    have : record.relativePath ≠ e.relativePath := fun heq => hscanned e he (heq.symm.trans hpath)
    simp [this]
  have hhead : (∀ r ∈ record :: known, r.relativePath = entry.relativePath →
      r.kind = .tombstone ∨ isSameContent entry r ≠ .ok true) ↔ same = false := by
    rw [← Bool.not_eq_true, hsame]
    constructor
    · rintro hall ⟨hlive, hcontent⟩
      rcases hall record List.mem_cons_self hpath with h | h
      · exact hlive h
      · exact h hcontent
    · intro hnot r hr hp
      rcases List.mem_cons.mp hr with rfl | hr
      · by_cases hlive : r.kind = .tombstone
        · exact .inl hlive
        · exact .inr fun hcontent => hnot ⟨hlive, hcontent⟩
      · exact absurd hp (hknown r hr)
  -- the heads share a path, so it is not gone; the entry has changed unless they agree
  cases same with
  | true =>
    refine ⟨hdeleted, fun e => ?_, h.sublist.cons _⟩
    rw [if_pos rfl, htail, List.mem_cons]
    constructor
    · rintro ⟨he, hall⟩
      exact ⟨.inr he, hall⟩
    · rintro ⟨rfl | he, hall⟩
      · exact nomatch hhead.mp hall
      · exact ⟨he, hall⟩
  | false =>
    refine ⟨hdeleted, fun e => ?_, h.sublist.cons_cons _⟩
    rw [if_neg Bool.false_ne_true]
    simp only [List.mem_cons (a := e), htail]
    constructor
    · rintro (rfl | ⟨he, hall⟩)
      · exact ⟨.inl rfl, hhead.mpr rfl⟩
      · exact ⟨.inr he, hall⟩
    · rintro ⟨rfl | he, hall⟩
      · exact .inl rfl
      · exact .inr ⟨he, hall⟩

end DiffStep

/-- **`DiffManifest` finds** the records whose path is gone and the entries that differ.  Each of
the two lists is described by a property, since the order plays no part here. -/
theorem diffOf_diffEntries {fuel : Nat} {scanned : List (SnapshotEntry H)}
    {known : List (FileRecord H)} (hfuel : scanned.length + known.length ≤ fuel)
    (hscanned : Merge.Sorted SnapshotEntry.relativePath scanned)
    (hknown : Merge.Sorted FileRecord.relativePath known) {diff : ManifestDiff H}
    (h : diffEntries fuel scanned known = .ok diff) : DiffOf scanned known diff := by
  fun_induction diffEntries fuel scanned known generalizing diff with
  | case1 fuel scanned =>
    cases h
    exact ⟨by simp, by simp, List.Sublist.refl _⟩
  | case2 fuel known =>
    cases h
    exact diffOf_nil_left known
  | case3 scanned known hknown' hscanned' =>
    -- the walk never runs out of fuel
    have hs : 0 < scanned.length := List.length_pos_iff.mpr hscanned'
    omega
  | case4 fuel entry scanned record known hlt ih =>
    obtain ⟨rest, hrest, h⟩ := ok_of_bind h
    cases h
    rw [List.length_cons] at hfuel
    refine (ih (by omega) hscanned.tail hknown hrest).created fun r hr => ?_
    rcases List.mem_cons.mp hr with rfl | hr
    · exact (ne_of_lt hlt).symm
    · exact (ne_of_lt (hlt.trans (hknown.lt hr))).symm
  | case5 fuel entry scanned record known hlt hgt ih =>
    obtain ⟨rest, hrest, h⟩ := ok_of_bind h
    cases h
    have hlength : (record :: known).length = known.length + 1 := rfl
    refine (ih (by omega) hscanned hknown.tail hrest).vanished fun e he => ?_
    rcases List.mem_cons.mp he with rfl | he
    · exact (ne_of_lt hgt).symm
    · exact (ne_of_lt (hgt.trans (hscanned.lt he))).symm
  | case6 fuel entry scanned record known hlt hgt jp htombstone ih =>
    obtain ⟨same, hsame, h⟩ := ok_of_bind h
    obtain ⟨rest, hrest, h⟩ := ok_of_bind h
    cases hsame
    cases h
    have hpath := le_antisymm (not_lt.mp hlt) (not_lt.mp hgt)
    simp only [List.length_cons] at hfuel
    refine (ih (by omega) hscanned.tail hknown.tail hrest).both hpath ?_ (fun e he => ?_)
      fun r hr => ?_
    · simp [htombstone]
    · exact (ne_of_lt (hscanned.lt he)).symm
    · exact hpath ▸ (ne_of_lt (hknown.lt hr)).symm
  | case7 fuel entry scanned record known hlt hgt jp hlive ih =>
    obtain ⟨same, hsame, h⟩ := ok_of_bind h
    obtain ⟨rest, hrest, h⟩ := ok_of_bind h
    cases h
    have hpath := le_antisymm (not_lt.mp hlt) (not_lt.mp hgt)
    simp only [List.length_cons] at hfuel
    refine (ih (by omega) hscanned.tail hknown.tail hrest).both hpath ?_ (fun e he => ?_)
      fun r hr => ?_
    · simp [hlive, hsame]
    · exact (ne_of_lt (hscanned.lt he)).symm
    · exact hpath ▸ (ne_of_lt (hknown.lt hr)).symm

/-- Where a record that `Apply` is going to write comes from: an entry that did not change keeps its
record but for size and time, and any other entry gets a new one. -/
inductive UpsertOf (known : List (FileRecord H)) (changed : List (SnapshotEntry H))
    (entry : SnapshotEntry H) : FileRecord H → Prop
  | touched {r : FileRecord H} (hr : r ∈ known) (hpath : r.relativePath = entry.relativePath)
      (hchanged : ∀ c ∈ changed, c.relativePath ≠ entry.relativePath) :
      UpsertOf known changed entry { r with size := entry.size, mtimeNs := entry.mtimeNs }
  | fresh {u : FileRecord H} (hpath : u.relativePath = entry.relativePath)
      (hkind : u.kind = entry.kind)
      (hchanged : (∃ c ∈ changed, c.relativePath = entry.relativePath) ∨
        ∀ r ∈ known, r.relativePath ≠ entry.relativePath) : UpsertOf known changed entry u

omit [ContentHash H] in
/-- What the indices have passed does not matter to a later entry. -/
theorem UpsertOf.of_dropWhile {known : List (FileRecord H)} {changed : List (SnapshotEntry H)}
    {p : Path} {entry : SnapshotEntry H} (hp : p < entry.relativePath) {u : FileRecord H}
    (h : UpsertOf (known.dropWhile fun r => r.relativePath < p)
      (changed.dropWhile fun c => c.relativePath < p) entry u) :
      UpsertOf known changed entry u := by
  cases h with
  | touched hr hpath hchanged =>
    refine .touched ((List.dropWhile_sublist _).subset hr) hpath fun c hc heq => ?_
    exact hchanged c (Merge.mem_dropWhile_of_le hc (heq ▸ hp.le)) heq
  | fresh hpath hkind hchanged =>
    refine .fresh hpath hkind (hchanged.imp ?_ fun hknown r hr heq => ?_)
    · rintro ⟨c, hc, heq⟩
      exact ⟨c, (List.dropWhile_sublist _).subset hc, heq⟩
    · exact hknown r (Merge.mem_dropWhile_of_le hr (heq ▸ hp.le)) heq

omit [ContentHash H] in
theorem upsertOf_of_mem (config : ReconcileConfig) (newId : Nat → VersionId)
    {used : Nat} {known : List (FileRecord H)} {changed snapshot : List (SnapshotEntry H)}
    (hknown : Merge.Sorted FileRecord.relativePath known)
    (hchanged : Merge.Sorted SnapshotEntry.relativePath changed)
    (hsnapshot : Merge.Sorted SnapshotEntry.relativePath snapshot) {u : FileRecord H}
    (hu : u ∈ (upsertsOf config newId used known changed snapshot).1) :
    ∃ entry ∈ snapshot, UpsertOf known changed entry u := by
  induction snapshot generalizing used known changed with
  | nil => cases hu
  | cons entry snapshot ih =>
    have hlater : ∀ {used' : Nat},
        u ∈ (upsertsOf config newId used'
          (known.dropWhile fun r => r.relativePath < entry.relativePath)
          (changed.dropWhile fun c => c.relativePath < entry.relativePath) snapshot).1 →
        ∃ e ∈ entry :: snapshot, UpsertOf known changed e u := by
      intro used' hmem
      obtain ⟨e, he, hupsert⟩ := ih (hknown.sublist (List.dropWhile_sublist _))
        (hchanged.sublist (List.dropWhile_sublist _)) hsnapshot.tail hmem
      exact ⟨e, List.mem_cons_of_mem _ he, hupsert.of_dropWhile (hsnapshot.lt he)⟩
    rw [upsertsOf] at hu
    dsimp only at hu
    rw [Merge.head?_dropWhile_filter hknown, Merge.head?_dropWhile_any hchanged] at hu
    split at hu
    · rename_i record hexisting hsame
      obtain ⟨hrecord, hpath⟩ := hknown.find?_eq_some_iff.mp hexisting
      split at hu
      · rcases List.mem_cons.mp hu with rfl | hu
        · refine ⟨entry, List.mem_cons_self, .touched hrecord hpath ?_⟩
          simpa using hsame
        · exact hlater hu
      · exact hlater hu
    · rename_i hcase
      rcases List.mem_cons.mp hu with rfl | hu
      · refine ⟨entry, List.mem_cons_self, .fresh rfl rfl ?_⟩
        by_cases hfresh : ∃ c ∈ changed, c.relativePath = entry.relativePath
        · exact .inl hfresh
        · refine .inr fun r hr hpath => ?_
          refine hcase r (hknown.find?_eq_some_iff.mpr ⟨hr, hpath⟩) ?_
          simpa using hfresh
      · exact hlater hu

theorem diffOf_diffManifest {snapshot : List (SnapshotEntry H)} {known : List (FileRecord H)}
    (hsnapshot : Merge.Sorted SnapshotEntry.relativePath snapshot)
    (hknown : Merge.Sorted FileRecord.relativePath known) {diff : ManifestDiff H}
    (h : diffManifest snapshot known = .ok diff) : DiffOf snapshot known diff := by
  rw [diffManifest, orderedEntries_of_sorted hsnapshot, orderedEntries_of_sorted hknown] at h
  exact diffOf_diffEntries le_rfl hsnapshot hknown h

/-- The two comparisons of a file with its record agree. -/
theorem isSameContent_of_sameSnapshot {entry : SnapshotEntry H} {r : FileRecord H}
    (h : sameSnapshot entry r) : isSameContent entry r = .ok true ∧ r.kind ≠ .tombstone := by
  rw [sameSnapshot] at h
  split at h
  · cases h
  rename_i hne
  rw [not_or, not_not, not_not] at hne
  obtain ⟨hkind, hsize⟩ := hne
  refine ⟨?_, hkind ▸ kind_ne_tombstone entry⟩
  rw [SnapshotEntry.kind] at hkind h
  rw [isSameContent]
  cases hfile : entry.isFile with
  | false =>
    rw [hfile, if_neg Bool.false_ne_true] at hkind
    simp [← hkind]
  | true =>
    rw [hfile, if_pos rfl] at hkind h
    rw [if_neg (by simp), Bool.and_eq_true] at h
    obtain ⟨hsome, hhash⟩ := h
    obtain ⟨hash, hcontent⟩ := Option.isSome_iff_exists.mp hsome
    rw [hcontent] at hhash ⊢
    simp [← hkind, hsize, of_decide_eq_true hhash]

/-- What `Apply` writes under a path on disk may be written there. -/
theorem kept_of_upsertOf {snapshot : List (SnapshotEntry H)}
    (hsnapshot : n.localSnapshot = .ok snapshot) (hkeyed : n.db.Keyed) {diff : ManifestDiff H}
    (hdiff : DiffOf snapshot n.db.listFileRecords diff) {entry : SnapshotEntry H}
    (hentry : entry ∈ snapshot) {u u' : FileRecord H}
    (hu : UpsertOf n.db.listFileRecords diff.createdOrChanged entry u) (hkind : u'.kind = u.kind)
    (hversion : u'.versionId = u.versionId) : n.Kept u.relativePath (some u') := by
  obtain ⟨rules, -, hsorted, hmem⟩ := localSnapshot_eq_ok hsnapshot
  refine .inr ⟨u', rfl, ?_⟩
  cases hu with
  | @touched r hr hpath hchanged =>
    have hsame : ¬ ∀ r ∈ n.db.listFileRecords, r.relativePath = entry.relativePath →
        r.kind = .tombstone ∨ isSameContent entry r ≠ .ok true := fun hall =>
      hchanged entry ((hdiff.changed entry).mpr ⟨hentry, hall⟩) rfl
    push Not at hsame
    obtain ⟨r', hr', hpath', hlive, -⟩ := hsame
    obtain rfl := hkeyed.sorted.eq_of_key_eq hr hr' (hpath.trans hpath'.symm)
    refine ⟨hkind ▸ hlive, fun _ => ?_⟩
    obtain ⟨q, hq⟩ := Database.mem_listFileRecords.mp hr
    rw [hversion, versionsOf, hkeyed q r hq, hq, Option.map_some]
  | fresh hpath hkind' hchanged =>
    refine ⟨hkind ▸ hkind' ▸ kind_ne_tombstone entry, fun hunedited => ?_⟩
    obtain ⟨node, old, hnode, hold, hsame⟩ := hunedited
    rw [hpath] at hnode hold hsame
    obtain ⟨p, node', hnode', -, -, rfl⟩ := (hmem entry).mp hentry
    rw [Folder.snapshotEntry_relativePath] at hnode hold hsame hchanged
    cases hnode.symm.trans (Folder.mem_listed.mp hnode').1
    have hold' := Database.mem_listFileRecords.mpr ⟨p, hold⟩
    rcases hchanged with ⟨c, hc, hcpath⟩ | hnone
    · obtain ⟨hc', hall⟩ := (hdiff.changed c).mp hc
      obtain rfl := hsorted.eq_of_key_eq hc' hentry
        (hcpath.trans (Folder.snapshotEntry_relativePath _ _ _).symm)
      obtain ⟨hcontent, hlive⟩ := isSameContent_of_sameSnapshot hsame
      rcases hall old hold' ((hkeyed p old hold).trans hcpath.symm) with h | h
      · exact absurd h hlive
      · exact absurd hcontent h
    · exact absurd (hkeyed p old hold) (hnone old hold')

omit [ContentHash H] in
theorem records_recordNewVersion {db db' : Database H} {parent : Option VersionId}
    {record : FileRecord H} (h : recordNewVersion db parent record = .ok db') :
    ∃ clock, db'.records =
      db.records.insert record.relativePath { record with logicalClock := clock } := by
  obtain ⟨⟨clock, db1⟩, hclock, hrest⟩ := ok_of_bind h
  obtain ⟨db2, hcreate, hupsert⟩ := ok_of_bind hrest
  obtain ⟨-, -, rfl⟩ := advanceLogicalClock_le hclock
  obtain ⟨-, lineage, rfl, -⟩ := Database.recordCreation_eq_ok hcreate
  obtain ⟨-, rfl⟩ := Database.upsertFileRecord_eq_ok hupsert
  exact ⟨clock, rfl⟩

theorem keepsRecords_reconcileUpserts {previous : Path → Option (FileRecord H)}
    {upserts : List (FileRecord H)}
    (hupserts : ∀ u ∈ upserts, ∀ u' : FileRecord H, u'.kind = u.kind → u'.versionId = u.versionId →
      n.Kept u.relativePath (some u')) {db db' : Database H} (h : n.KeepsRecords db)
    (hdb : reconcileUpserts true previous db upserts = .ok db') : n.KeepsRecords db' := by
  induction upserts generalizing db with
  | nil =>
    cases hdb
    exact h
  | cons u upserts ih =>
    obtain ⟨db1, hstep, hdb⟩ := ok_of_bind hdb
    refine ih (fun v hv => hupserts v (List.mem_cons_of_mem _ hv)) ?_ hdb
    have hu := hupserts u List.mem_cons_self
    rw [reconcileUpsert] at hstep
    split at hstep
    · obtain ⟨clock, hrecords⟩ := records_recordNewVersion hstep
      exact h.insert hrecords fun _ => hu _ rfl rfl
    · obtain ⟨-, rfl⟩ := Database.upsertFileRecord_eq_ok hstep
      exact h.insert rfl fun _ => hu _ rfl rfl

theorem keepsRecords_reconcileDeletes {config : ReconcileConfig}
    {previous : Path → Option (FileRecord H)} {newId : Nat → VersionId} {paths : List Path}
    (hpaths : ∀ p ∈ paths, n.folder.tree.find p = none) {db db' : Database H} {used used' : Nat}
    (h : n.KeepsRecords db)
    (hdb : reconcileDeletes true config previous newId used db paths = .ok (db', used')) :
    n.KeepsRecords db' := by
  induction paths generalizing db used with
  | nil =>
    cases hdb
    exact h
  | cons path paths ih =>
    obtain ⟨db1, hstep, hdb⟩ := ok_of_bind hdb
    refine ih (fun p hp => hpaths p (List.mem_cons_of_mem _ hp)) ?_ hdb
    obtain ⟨clock, hrecords⟩ := records_recordNewVersion hstep
    exact h.insert hrecords fun hdisk => absurd (hpaths path List.mem_cons_self) hdisk

/-- **`PerformScan` is faithful** to what is visible, however it ends.  Its tombstones come from the
diff; the argument about what is visible is the same. -/
theorem faithful_performScan (hkeyed : n.db.Keyed) (hvisible : n.Visible) :
    n.Faithful (performScan n).2 := by
  refine KeepsRecords.faithful (of_wp (I := fun n' : Node H => n.KeepsRecords n'.db) ?_)
  have hstart := n.keepsRecords_refl
  rw [performScan, wp_bind]
  refine wp_check (fun _ _ => hstart) fun hash _ => ?_
  rw [wp_bind]
  refine wp_check (fun _ _ => hstart) fun snapshot hsnapshot => ?_
  rw [wp_bind, wp_state]
  refine wp_ite (fun _ => hstart) fun _ => wp_ite (fun _ => hstart) fun _ => ?_
  rw [wp_bind]
  refine wp_dbGet hstart (fun _ _ => hstart) fun r db hdb => ?_
  show n.KeepsRecords db
  obtain ⟨rules, -, hsorted, -⟩ := localSnapshot_eq_ok hsnapshot
  obtain ⟨diff, db1, hdiff, hupserts, hdeletes⟩ := reconcile_eq_ok hdb
  have hdiffOf := diffOf_diffManifest hsorted hkeyed.sorted hdiff
  refine keepsRecords_reconcileDeletes (fun p hp => ?_) (keepsRecords_reconcileUpserts ?_ hstart
    hupserts) hdeletes
  · obtain ⟨r, hr, rfl, hlive, hgone⟩ := (hdiffOf.deleted p).mp hp
    by_contra hdisk
    obtain ⟨q, hq⟩ := Database.mem_listFileRecords.mp hr
    have hfind := hkeyed q r hq ▸ hq
    obtain ⟨entry, hentry, hpath⟩ := mem_localSnapshot hsnapshot hvisible hfind hlive hdisk
    exact hgone entry hentry hpath
  · intro u hu u' hkind hversion
    obtain ⟨entry, hentry, hof⟩ := upsertOf_of_mem _ _ hkeyed.sorted
      (hsorted.sublist hdiffOf.sublist) hsorted hu
    exact kept_of_upsertOf hsnapshot hkeyed hdiffOf hentry hof hkind hversion

omit [ContentHash H] in
theorem tombstoned_reconcileDeletes {config : ReconcileConfig}
    {previous : Path → Option (FileRecord H)} {newId : Nat → VersionId} {p : Path}
    {paths : List Path} {db db' : Database H} {used used' : Nat}
    (h : Tombstoned p db ∨ p ∈ paths)
    (hdb : reconcileDeletes true config previous newId used db paths = .ok (db', used')) :
    Tombstoned p db' := by
  induction paths generalizing db used with
  | nil =>
    cases hdb
    exact h.resolve_right (List.not_mem_nil)
  | cons path paths ih =>
    obtain ⟨db1, hstep, hdb⟩ := ok_of_bind hdb
    obtain ⟨clock, hrecords⟩ := records_recordNewVersion hstep
    refine ih ?_ hdb
    rcases h with h | h
    · exact .inl (Tombstoned.insert (.inl h) rfl hrecords)
    · rcases List.mem_cons.mp h with rfl | h
      · exact .inl (Tombstoned.insert (.inr rfl) rfl hrecords)
      · exact .inr h

theorem tombstoned_performScan (hkeyed : n.db.Keyed) (hpending : n.policyPending = false)
    (hok : (performScan n).1 = .ok ()) {p : Path} {r : FileRecord H}
    (hr : n.db.records.find p = some r) (hlive : r.kind ≠ .tombstone)
    (hhidden : ∀ snapshot, n.localSnapshot = .ok snapshot →
      ∀ entry ∈ snapshot, entry.relativePath ≠ p) :
    Tombstoned p (performScan n).2.db := by
  have hwp : Wp performScan (fun _ n' => Tombstoned p n'.db) (fun _ _ => True) n := by
    rw [performScan, wp_bind]
    refine wp_check (fun _ _ => trivial) fun hash _ => ?_
    rw [wp_bind]
    refine wp_check (fun _ _ => trivial) fun snapshot hsnapshot => ?_
    rw [wp_bind, wp_state, if_neg (by simp [hpending])]
    refine wp_ite (fun _ => trivial) fun _ => ?_
    rw [wp_bind]
    refine wp_dbGet trivial (fun _ _ => trivial) fun result db hdb => ?_
    show Tombstoned p db
    obtain ⟨rules, -, hsorted, -⟩ := localSnapshot_eq_ok hsnapshot
    obtain ⟨diff, db1, hdiff, -, hdeletes⟩ := reconcile_eq_ok hdb
    refine tombstoned_reconcileDeletes (.inr ?_) hdeletes
    refine ((diffOf_diffManifest hsorted hkeyed.sorted hdiff).deleted p).mpr ⟨r, ?_, ?_, hlive, ?_⟩
    · exact Database.mem_listFileRecords.mpr ⟨p, hr⟩
    · exact hkeyed p r hr
    · exact hhidden snapshot hsnapshot
  exact of_wp_ok hwp hok

/-! ## When tombstones mean absence

In one direction the statement is about every scan, however it ends; in the other it needs a scan
that has come to its end, since one that fails early has done nothing wrong yet. -/

/-- The snapshot has nothing that a scan does not show. -/
theorem not_mem_localSnapshot {snapshot : List (SnapshotEntry H)}
    (hsnapshot : n.localSnapshot = .ok snapshot) {p : Path} (hhidden : ¬n.Shows p) :
    ∀ entry ∈ snapshot, entry.relativePath ≠ p := by
  rintro entry hentry rfl
  obtain ⟨rules, hrules, -, hmem⟩ := localSnapshot_eq_ok hsnapshot
  obtain ⟨p, node, hnode, hignored, hconflict, rfl⟩ := (hmem entry).mp hentry
  rw [Folder.snapshotEntry_relativePath] at hhidden
  refine hhidden ⟨(Folder.mem_listed.mp hnode).2, hconflict, fun rules' hrules' => ?_⟩
  cases hrules.symm.trans hrules'
  rw [hignored]
  nofun

/-- **A scan is faithful exactly when every tracked path on disk is visible.**  That is enough
however the scan ends, and necessary once it has run to its end. -/
theorem scan_faithful_iff (hkeyed : n.db.Keyed) {scan : NodeM H Unit}
    (hscan : scan = refreshLocal ∨ scan = performScan) :
    (n.Visible → n.Faithful (scan n).2) ∧
      (n.policyPending = false → (scan n).1 = .ok () →
        (n.Faithful (scan n).2 ↔ n.Visible)) := by
  have henough : n.Visible → n.Faithful (scan n).2 := by
    rcases hscan with rfl | rfl
    · exact faithful_refreshLocal hkeyed
    · exact faithful_performScan hkeyed
  refine ⟨henough, fun hpending hok => ⟨fun hfaithful p r hr hlive hdisk => ?_, henough⟩⟩
  by_contra hhidden
  have htombstoned : Tombstoned p (scan n).2.db := by
    rcases hscan with rfl | rfl
    · exact tombstoned_refreshLocal hkeyed hpending hok hr hlive fun _ hsnapshot =>
        not_mem_localSnapshot hsnapshot hhidden
    · exact tombstoned_performScan hkeyed hpending hok hr hlive fun _ hsnapshot =>
        not_mem_localSnapshot hsnapshot hhidden
  obtain ⟨t, ht, htombstone⟩ := htombstoned
  refine hdisk (hfaithful.absent p ⟨t, ht, htombstone, fun heq => hlive ?_⟩)
  cases hr.symm.trans heq
  exact htombstone

end Node

/-! ### A file that becomes ignored -/

/-- A sample node that tracks the file `f`. -/
def trackingNode : Node Bytes :=
  (Side.a.sample fileFolder).perform (.call sampleEnvironment .performScan)

/-- The same node after a rule for `f` has been written into the rule file. -/
def ignoringNode : Node Bytes :=
  { trackingNode with folder := { fileFolder with rules := ascii "f" } }

theorem keyed_trackingNode : trackingNode.db.Keyed := by
  intro p r hr
  have hall : ∀ e ∈ trackingNode.db.records.entries, e.2.relativePath = e.1 := by decide +kernel
  exact hall (p, r) (OrdMap.find_eq_some_iff.mp hr)

theorem scan_faithful_iff_tracking :
    Node.Faithful trackingNode (Node.refreshLocal trackingNode).2 ∧ trackingNode.Visible := by
  have h := Node.scan_faithful_iff keyed_trackingNode (.inl rfl)
  have hvisible : trackingNode.Visible := by
    intro p r hr _ _
    have hall : ∀ e ∈ trackingNode.db.records.entries, ¬trackingNode.folder.Hidden e.1 ∧
        isConflictPath e.1 = false ∧
        (trackingNode.folder.loadRules.bind fun rules => rules.isIgnored e.1) ≠ .ok true := by
      decide +kernel
    obtain ⟨hwalk, hconflict, hignored⟩ := hall (p, r) (OrdMap.find_eq_some_iff.mp hr)
    refine ⟨hwalk, hconflict, fun rules hrules => ?_⟩
    rwa [hrules] at hignored
  exact ⟨(h.2 (by decide +kernel) (by decide +kernel)).mpr hvisible, hvisible⟩

/-- A new tombstone for a path that is on disk. -/
theorem not_faithful {n n' : Node Bytes} {p : Path} (hdisk : n.folder.tree.find p ≠ none)
    (hrecord : (n.db.records.find p).map FileRecord.kind = some .file)
    (hn' : (n'.db.records.find p).map FileRecord.kind = some .tombstone) : ¬n.Faithful n' := by
  intro hfaithful
  obtain ⟨r, hr, hkind⟩ := Option.map_eq_some_iff.mp hn'
  refine hdisk (hfaithful.absent _ ⟨r, hr, hkind, fun heq => ?_⟩)
  rw [heq, Option.map_some, hkind] at hrecord
  cases hrecord

theorem marked_linked : fileFolder.tree.Marked [ascii "f"] [] := by
  refine ⟨fun p hp => ?_, nofun⟩
  obtain rfl := List.mem_singleton.mp hp
  decide +kernel

/-- The file has been moved away, and a symbolic link to it is in its place. -/
def linkedNode : Node Bytes :=
  { trackingNode with
    folder := ⟨fileFolder.tree, fileFolder.closed, [], [ascii "f"], [], marked_linked⟩ }

/-- A folder with a file in a directory. -/
def nestedFolder : Folder :=
  .plain ((OrdMap.empty.insert (ascii "d") .directory).insert (ascii "d/f") (.file []))
    (by decide +kernel) []

theorem marked_locked : nestedFolder.tree.Marked [] [ascii "d"] := by
  refine ⟨nofun, fun p hp => .inr ?_⟩
  obtain rfl := List.mem_singleton.mp hp
  decide +kernel

/-- A sample node that tracks the file `d/f`, after the right to list `d` has been taken away. -/
def lockedNode : Node Bytes :=
  { (Side.a.sample nestedFolder).perform (.call sampleEnvironment .performScan) with
    folder := ⟨nestedFolder.tree, nestedFolder.closed, [], [], [ascii "d"], marked_locked⟩ }

/-- Both scans take the file for deleted as soon as it is ignored, and once it is not ignored any
more it has a new version although nothing was edited.  They do the same to a file behind a link,
and to one in a directory that may not be listed. -/
theorem ignored_file_deleted :
    ¬ (∀ n : Node Bytes, n.db.Keyed → n.Faithful (Node.refreshLocal n).2) ∧
      ¬ (∀ n : Node Bytes, n.db.Keyed → n.Faithful (Node.performScan n).2) ∧
      Node.versionsOf (Node.refreshLocal
          { (Node.refreshLocal ignoringNode).2 with folder := fileFolder }).2.db (ascii "f") ≠
        Node.versionsOf trackingNode.db (ascii "f") ∧
      (¬ linkedNode.Faithful (Node.refreshLocal linkedNode).2 ∧
        ¬ linkedNode.Faithful (Node.performScan linkedNode).2) ∧
      ¬ lockedNode.Faithful (Node.refreshLocal lockedNode).2 ∧
        ¬ lockedNode.Faithful (Node.performScan lockedNode).2 := by
  have hignoring : ignoringNode.folder.tree.find (ascii "f") ≠ none ∧
      (ignoringNode.db.records.find (ascii "f")).map FileRecord.kind = some .file := by
    decide +kernel
  have hlinked : linkedNode.folder.tree.find (ascii "f") ≠ none ∧
      (linkedNode.db.records.find (ascii "f")).map FileRecord.kind = some .file := by
    decide +kernel
  have hlocked : lockedNode.folder.tree.find (ascii "d/f") ≠ none ∧
      (lockedNode.db.records.find (ascii "d/f")).map FileRecord.kind = some .file := by
    decide +kernel
  refine ⟨fun h => ?_, fun h => ?_, by decide +kernel, ⟨?_, ?_⟩, ?_, ?_⟩
  · exact not_faithful hignoring.1 hignoring.2 (by decide +kernel)
      (h ignoringNode keyed_trackingNode)
  · exact not_faithful hignoring.1 hignoring.2 (by decide +kernel)
      (h ignoringNode keyed_trackingNode)
  · exact not_faithful hlinked.1 hlinked.2 (by decide +kernel)
  · exact not_faithful hlinked.1 hlinked.2 (by decide +kernel)
  · exact not_faithful hlocked.1 hlocked.2 (by decide +kernel)
  · exact not_faithful hlocked.1 hlocked.2 (by decide +kernel)

end VeritasSync
