import VeritasSync.Lib.Merge
import VeritasSync.Sync.Footprint

/-!
# What a scan sees and what it records

`RefreshLocal` walks the snapshot and the records with one index each.  On lists sorted by path that
is the same as looking every path up (`refreshEntries_eq`, `refreshDeletions_eq`), and both lists
are sorted: the snapshot comes from the walk of the tree, the records from a table in path order.

Two questions are answered here for both scans.  What do they keep?  A property of the database that
survives the recording of one new version survives a scan (`ScanKeeps`), so an invariant about
records and lineage has to be checked against one kind of write and not against two loops.  And what
do they announce?  `RefreshLocal` sends a manifest of the records it leaves, the runtime's scan
sends nothing.
-/

set_option autoImplicit false
set_option linter.unusedSectionVars false

namespace VeritasSync

variable {H : Type}

/-! ## The records in path order -/

/-- Every record is stored under its own path. -/
def Database.Keyed (db : Database H) : Prop :=
  ∀ p r, db.records.find p = some r → r.relativePath = p

namespace Database

variable {db : Database H}

theorem Keyed.sorted (h : db.Keyed) : Merge.Sorted FileRecord.relativePath db.listFileRecords := by
  rw [Merge.Sorted, listFileRecords, List.pairwise_map]
  refine db.records.sorted.imp_of_mem fun {a b} ha hb hlt => ?_
  rwa [h a.1 a.2 (OrdMap.find_eq_some_iff.mpr ha), h b.1 b.2 (OrdMap.find_eq_some_iff.mpr hb)]

/-- Searching the list is looking the path up. -/
theorem Keyed.find?_listFileRecords (h : db.Keyed) (p : Path) :
    (db.listFileRecords.find? fun r => r.relativePath = p) = db.records.find p := by
  cases hfind : db.records.find p with
  | some r =>
    exact h.sorted.find?_eq_some_iff.mpr ⟨mem_listFileRecords.mpr ⟨p, hfind⟩, h p r hfind⟩
  | none =>
    refine List.find?_eq_none.mpr fun r hr => ?_
    obtain ⟨q, hq⟩ := mem_listFileRecords.mp hr
    have hqp : q ≠ p := by
      rintro rfl
      rw [hfind] at hq
      cases hq
    simpa [h q r hq] using hqp

end Database

/-- The indirection of `DiffManifest` leaves a sorted list as it is. -/
theorem orderedEntries_of_sorted {α : Type} {path : α → Path} {l : List α}
    (h : Merge.Sorted path l) : orderedEntries path l = .ok l := by
  rw [orderedEntries, List.Pairwise.insertionSort_eq h.le]
  exact if_pos h.nodup

/-! ## The snapshot -/

namespace Folder

variable [ContentHash H]

/-- The entries of a scan are those of the paths that are not ignored. -/
theorem mem_scanEntries {rules : IgnoreRules} {mtime : Path → Int} {l : List (Path × FsNode)}
    {snapshot : List (SnapshotEntry H)} (h : scanEntries rules mtime l = .ok snapshot)
    {entry : SnapshotEntry H} :
    entry ∈ snapshot ↔ ∃ p n, (p, n) ∈ l ∧ rules.isIgnored p = .ok false ∧
      entry = snapshotEntry mtime p n := by
  induction l generalizing snapshot with
  | nil =>
    cases h
    simp
  | cons pn l ih =>
    obtain ⟨p, n⟩ := pn
    obtain ⟨ignored, hignored, h⟩ := ok_of_bind h
    obtain ⟨rest, hrest, h⟩ := ok_of_bind h
    cases h
    cases ignored with
    | true =>
      rw [if_pos rfl, ih hrest]
      constructor
      · rintro ⟨q, m, hmem, hq⟩
        exact ⟨q, m, List.mem_cons_of_mem _ hmem, hq⟩
      · rintro ⟨q, m, hmem, hq, rfl⟩
        rcases List.mem_cons.mp hmem with heq | hmem
        · cases heq
          rw [hignored] at hq
          cases hq
        · exact ⟨q, m, hmem, hq, rfl⟩
    | false =>
      rw [if_neg Bool.false_ne_true, List.mem_cons, ih hrest]
      constructor
      · rintro (rfl | ⟨q, m, hmem, hq⟩)
        · exact ⟨p, n, List.mem_cons_self, hignored, rfl⟩
        · exact ⟨q, m, List.mem_cons_of_mem _ hmem, hq⟩
      · rintro ⟨q, m, hmem, hq, rfl⟩
        rcases List.mem_cons.mp hmem with heq | hmem
        · cases heq
          exact .inl rfl
        · exact .inr ⟨q, m, hmem, hq, rfl⟩

@[simp] theorem snapshotEntry_relativePath (mtime : Path → Int) (p : Path) (n : FsNode) :
    (snapshotEntry mtime p n : SnapshotEntry H).relativePath = p := by cases n <;> rfl

theorem sorted_scanEntries {rules : IgnoreRules} {mtime : Path → Int} {l : List (Path × FsNode)}
    (hl : l.Pairwise fun a b => a.1 < b.1) {snapshot : List (SnapshotEntry H)}
    (h : scanEntries rules mtime l = .ok snapshot) :
    Merge.Sorted SnapshotEntry.relativePath snapshot := by
  induction l generalizing snapshot with
  | nil =>
    cases h
    exact .nil
  | cons pn l ih =>
    obtain ⟨p, n⟩ := pn
    obtain ⟨ignored, hignored, h⟩ := ok_of_bind h
    obtain ⟨rest, hrest, h⟩ := ok_of_bind h
    cases h
    obtain ⟨hhead, htail⟩ := List.pairwise_cons.mp hl
    split
    · exact ih htail hrest
    · refine List.pairwise_cons.mpr ⟨fun entry hentry => ?_, ih htail hrest⟩
      obtain ⟨q, m, hmem, -, rfl⟩ := (mem_scanEntries hrest).mp hentry
      rw [snapshotEntry_relativePath, snapshotEntry_relativePath]
      exact hhead (q, m) hmem

omit [ContentHash H] in
theorem sorted_listed (f : Folder) : f.listed.Pairwise fun a b => a.1 < b.1 :=
  f.tree.sorted.sublist List.filter_sublist

end Folder

namespace Node

open Exec

theorem forM_congr {γ : Type} {l : List γ} {f g : γ → NodeM H Unit} (h : ∀ a ∈ l, f a = g a) :
    l.forM f = l.forM g := by
  induction l with
  | nil => rfl
  | cons a l ih =>
    show (f a >>= fun _ => l.forM f) = (g a >>= fun _ => l.forM g)
    rw [h a List.mem_cons_self, ih fun b hb => h b (List.mem_cons_of_mem _ hb)]

/-! ## What scans keep -/

/-- The database property survives what a scan does that found the versions `previous`: creating a
version on top of the previous one, storing a record under it, and touching a record. -/
structure ScanKeeps (D : Database H → Prop) (previous : Path → Option VersionId) : Prop where
  clock : ∀ db clock, D db → D { db with logicalClock := clock }
  create : ∀ db c db', D db → c.parentVersionId = previous c.relativePath →
    db.recordCreation c = .ok db' → D db'
  store : ∀ db c db' record, D db → c.parentVersionId = previous c.relativePath →
    db.recordCreation c = .ok db' → record.versionId = c.versionId →
    record.relativePath = c.relativePath →
    D { db' with records := db'.records.insert record.relativePath record }
  touch : ∀ db record, D db → previous record.relativePath = some record.versionId →
    D { db with records := db.records.insert record.relativePath record }

/-- The versions a scan finds. -/
def versionsOf (db : Database H) (p : Path) : Option VersionId :=
  (db.records.find p).map FileRecord.versionId

section ScanKeeps

variable {D : Database H → Prop} {previous : Path → Option VersionId} {sent : List (Frame H)}

/-- The database satisfies `D`, and nothing has been sent but `sent`. -/
def Scanning (D : Database H → Prop) (sent : List (Frame H)) (n : Node H) : Prop :=
  D n.db ∧ n.out = sent

namespace ScanKeeps

variable (S : ScanKeeps D previous)

include S

/-- Creating a version and storing a record under it. -/
theorem wp_store {parent : Option VersionId} {path : Path} (hparent : parent = previous path)
    (record : VersionId × Nat → Node H → FileRecord H)
    (hversion : ∀ version n, (record version n).versionId = version.1)
    (hpath : ∀ version n, (record version n).relativePath = path) {n : Node H}
    (h : Scanning D sent n) :
    Wp (do
      let version ← createVersion parent path
      let n ← Exec.state
      dbDo fun db => db.upsertFileRecord (record version n))
      (fun _ => Scanning D sent) (fun _ => Scanning D sent) n := by
  obtain ⟨h, hout⟩ := h
  rw [wp_bind, createVersion, wp_bind]
  refine wp_dbGet ⟨h, hout⟩ (fun _ _ => ⟨h, hout⟩) fun clock db hdb => ?_
  obtain ⟨-, -, rfl⟩ := advanceLogicalClock_le hdb
  have h1 : D { n.db with logicalClock := clock } := S.clock _ _ h
  rw [wp_bind, wp_newUuidV4, wp_bind, wp_state, wp_bind]
  refine wp_dbDo ⟨h1, hout⟩ (fun _ _ => ⟨h1, hout⟩) fun db hcreate => ?_
  rw [wp_pure, wp_bind, wp_state]
  have h2 : D db := S.create _ _ _ h1 hparent hcreate
  refine wp_dbDo ⟨h2, hout⟩ (fun _ _ => ⟨h2, hout⟩) fun db' hupsert => ?_
  obtain ⟨-, rfl⟩ := Database.upsertFileRecord_eq_ok hupsert
  exact ⟨S.store _ _ _ _ h1 hparent hcreate (hversion _ _) (hpath _ _), hout⟩

theorem recordChange {old : Option (FileRecord H)} {entry : SnapshotEntry H}
    (hold : old.map FileRecord.versionId = previous entry.relativePath) :
    Within (Keeps (Scanning D sent)) (Node.recordChange old entry) :=
  keeps_of_wp fun _ h => S.wp_store hold (fun version n => changeRecord n.config entry version)
    (fun _ _ => rfl) (fun _ _ => rfl) h

theorem recordDeletion {old : FileRecord H}
    (hold : some old.versionId = previous old.relativePath) :
    Within (Keeps (Scanning D sent)) (Node.recordDeletion old) :=
  keeps_of_wp fun _ h => S.wp_store hold
    (fun version n => Database.tombstoneRecord n.config.taskId old.relativePath version.1
      n.config.deviceId version.2 n.nowMs) (fun _ _ => rfl) (fun _ _ => rfl) h

theorem recordNewVersion {db db' : Database H} {parent : Option VersionId} {record : FileRecord H}
    (hparent : parent = previous record.relativePath) (h : D db)
    (hdb : VeritasSync.recordNewVersion db parent record = .ok db') : D db' := by
  obtain ⟨⟨clock, db1⟩, hclock, hrest⟩ := ok_of_bind hdb
  obtain ⟨db2, hcreate, hupsert⟩ := ok_of_bind hrest
  obtain ⟨-, -, rfl⟩ := advanceLogicalClock_le hclock
  obtain ⟨-, rfl⟩ := Database.upsertFileRecord_eq_ok hupsert
  exact S.store _ _ _ _ (S.clock _ _ h) hparent hcreate rfl rfl

end ScanKeeps

end ScanKeeps

/-! ## The loops as lookups

The indices of the two loops are an optimization: both lists are sorted by path, so what an index
has passed is too small to be looked up again.  After these lemmas no proof sees an index. -/

variable [ContentHash H]

/-- The entries a scan of a node works on. -/
theorem localSnapshot_eq_ok {n : Node H} {snapshot : List (SnapshotEntry H)}
    (h : n.localSnapshot = .ok snapshot) :
    ∃ rules, n.folder.loadRules = .ok rules ∧ Merge.Sorted SnapshotEntry.relativePath snapshot ∧
      ∀ entry, entry ∈ snapshot ↔ ∃ p node, (p, node) ∈ n.folder.listed ∧
        rules.isIgnored p = .ok false ∧ isConflictPath p = false ∧
          entry = Folder.snapshotEntry n.env.mtime p node := by
  obtain ⟨rules, hrules, h⟩ := ok_of_bind h
  obtain ⟨scanned, hscanned, h⟩ := ok_of_bind h
  cases h
  refine ⟨rules, hrules, ?_, fun entry => ?_⟩
  · exact (Folder.sorted_scanEntries n.folder.sorted_listed hscanned).sublist List.filter_sublist
  · rw [List.mem_filter, Folder.mem_scanEntries hscanned]
    constructor
    · rintro ⟨⟨p, node, hmem, hp, rfl⟩, hconflict⟩
      rw [Folder.snapshotEntry_relativePath] at hconflict
      exact ⟨p, node, hmem, hp, by simpa using hconflict, rfl⟩
    · rintro ⟨p, node, hmem, hp, hconflict, rfl⟩
      refine ⟨⟨p, node, hmem, hp, rfl⟩, ?_⟩
      simp [hconflict]

/-- What `RefreshLocal` does about one entry of the snapshot. -/
def refreshEntry (known : List (FileRecord H)) (entry : SnapshotEntry H) : NodeM H Unit :=
  let previous := known.find? fun record => record.relativePath = entry.relativePath
  Exec.when (¬ previous.any fun record => sameSnapshot entry record) (recordChange previous entry)

/-- What `RefreshLocal` does about one record. -/
def refreshRecord (snapshot : List (SnapshotEntry H)) (record : FileRecord H) : NodeM H Unit :=
  Exec.when (¬ (record.kind = .tombstone ∨
    (snapshot.find? fun entry => entry.relativePath = record.relativePath).isSome))
    (recordDeletion record)

/-- On sorted lists the first loop looks every entry up. -/
theorem refreshEntries_eq {known : List (FileRecord H)} {snapshot : List (SnapshotEntry H)}
    (hknown : Merge.Sorted FileRecord.relativePath known)
    (hsnapshot : Merge.Sorted SnapshotEntry.relativePath snapshot) :
    refreshEntries known snapshot = snapshot.forM (refreshEntry known) := by
  induction snapshot generalizing known with
  | nil => rfl
  | cons entry snapshot ih =>
    have hrest := hknown.sublist (List.dropWhile_sublist
      (p := fun record => decide (record.relativePath < entry.relativePath)))
    show (refreshEntries known (entry :: snapshot))
      = (refreshEntry known entry >>= fun _ => snapshot.forM (refreshEntry known))
    rw [refreshEntries, Merge.head?_dropWhile_filter hknown, ih hrest hsnapshot.tail]
    refine congrArg _ (funext fun _ => forM_congr fun later hlater => ?_)
    rw [refreshEntry, refreshEntry, Merge.find?_dropWhile (hsnapshot.lt hlater).le]

/-- On sorted lists the second loop looks every record up. -/
theorem refreshDeletions_eq {snapshot : List (SnapshotEntry H)} {known : List (FileRecord H)}
    (hsnapshot : Merge.Sorted SnapshotEntry.relativePath snapshot)
    (hknown : Merge.Sorted FileRecord.relativePath known) :
    refreshDeletions snapshot known = known.forM (refreshRecord snapshot) := by
  induction known generalizing snapshot with
  | nil => rfl
  | cons record known ih =>
    have hrest := hsnapshot.sublist (List.dropWhile_sublist
      (p := fun entry => decide (entry.relativePath < record.relativePath)))
    show (refreshDeletions snapshot (record :: known))
      = (refreshRecord snapshot record >>= fun _ => known.forM (refreshRecord snapshot))
    rw [refreshDeletions, Merge.head?_dropWhile_any hsnapshot, ih hrest hknown.tail]
    refine congrArg _ (funext fun _ => forM_congr fun later hlater => ?_)
    rw [refreshRecord, refreshRecord, Merge.find?_dropWhile (hknown.lt hlater).le]

/-! ## What is announced -/

/-- The manifest lists the records of the database. -/
def Describes (db : Database H) (m : VersionedManifest H) : Prop :=
  ∃ rules, manifestEntries db rules db.listFileRecords = .ok m.entries

/-- The database is the same, and the manifests sent describe it. -/
structure Announces (n n' : Node H) : Prop where
  db : n'.db = n.db
  sent : ∀ m, Frame.versionManifest m ∈ n'.out → Frame.versionManifest m ∈ n.out ∨
    Describes n'.db m

theorem announces_sendManifest : Within Announces (sendManifest (H := H)) := by
  refine within_of_wp fun n => ?_
  rw [sendManifest, wp_bind, wp_state]
  refine wp_ite (fun _ => ⟨rfl, fun _ => .inl⟩) fun _ => ?_
  rw [wp_bind, wp_update, wp_bind]
  refine wp_check (fun _ _ => ⟨rfl, fun _ => .inl⟩) fun rules _ => ?_
  rw [wp_bind]
  refine wp_check (fun _ _ => ⟨rfl, fun _ => .inl⟩) fun entries hentries => ?_
  rw [wp_bind]
  refine wp_check (fun _ _ => ⟨rfl, fun _ => .inl⟩) fun _ _ => ?_
  rw [wp_bind, wp_send, wp_update]
  refine ⟨rfl, fun m hm => ?_⟩
  rcases List.mem_append.mp hm with hm | hm
  · exact .inl hm
  · obtain rfl := Frame.versionManifest.inj (List.mem_singleton.mp hm)
    exact .inr ⟨rules, hentries⟩

section Scans

variable {D : Database H → Prop} {sent : List (Frame H)}

/-- The loops of `RefreshLocal` keep what a scan keeps. -/
theorem ScanKeeps.loops {db : Database H} (S : ScanKeeps D (versionsOf db)) (hkeyed : db.Keyed)
    {snapshot : List (SnapshotEntry H)}
    (hsnapshot : Merge.Sorted SnapshotEntry.relativePath snapshot) :
    Within (Keeps (Scanning D sent)) (do
      refreshEntries db.listFileRecords snapshot
      refreshDeletions snapshot db.listFileRecords) := by
  rw [refreshEntries_eq hkeyed.sorted hsnapshot, refreshDeletions_eq hsnapshot hkeyed.sorted]
  refine within_bind (within_forM fun entry _ => within_when fun _ => S.recordChange ?_) fun _ =>
    within_forM fun record hrecord => within_when fun _ => S.recordDeletion ?_
  · rw [hkeyed.find?_listFileRecords, versionsOf]
  · obtain ⟨q, hq⟩ := Database.mem_listFileRecords.mp hrecord
    rw [versionsOf, hkeyed q record hq, hq, Option.map_some]

/-- After `RefreshLocal` the database satisfies what scans keep, and a manifest sent describes
it. -/
theorem ScanKeeps.refreshLocal {n : Node H} (S : ScanKeeps D (versionsOf n.db))
    (hkeyed : n.db.Keyed) (h : D n.db) :
    D (Node.refreshLocal n).2.db ∧ ∀ m, Frame.versionManifest m ∈ (Node.refreshLocal n).2.out →
      Frame.versionManifest m ∈ n.out ∨ Describes (Node.refreshLocal n).2.db m := by
  refine of_wp (I := fun n' : Node H => D n'.db ∧ ∀ m, Frame.versionManifest m ∈ n'.out →
    Frame.versionManifest m ∈ n.out ∨ Describes n'.db m) ?_
  have hscanning : ∀ n', Scanning D n.out n' → D n'.db ∧ ∀ m, Frame.versionManifest m ∈ n'.out →
      Frame.versionManifest m ∈ n.out ∨ Describes n'.db m :=
    fun n' h' => ⟨h'.1, fun m hm => .inl (h'.2 ▸ hm)⟩
  have hstart := hscanning n ⟨h, rfl⟩
  rw [Node.refreshLocal, wp_bind, wp_state]
  refine wp_ite (fun _ => hstart) fun _ => ?_
  rw [wp_bind]
  refine wp_check (fun _ _ => hstart) fun hash _ => wp_ite (fun _ => hstart) fun _ => ?_
  rw [wp_bind]
  refine wp_check (fun _ _ => hstart) fun snapshot hsnapshot => ?_
  obtain ⟨rules, -, hsorted, -⟩ := localSnapshot_eq_ok hsnapshot
  have hloops := wp_of (S.loops hkeyed hsorted n ⟨h, rfl⟩)
  rw [wp_bind] at hloops ⊢
  refine wp_mono hloops (fun _ n' hn' => ?_) fun _ => hscanning
  rw [wp_bind]
  refine wp_mono hn' (fun _ n'' hn'' => ?_) fun _ => hscanning
  rw [wp_bind, wp_update]
  refine wp_when (fun _ => wp_of ?_) fun _ => hscanning _ hn''
  obtain ⟨hdb, hsent⟩ := announces_sendManifest { n'' with sourceFiles := sourceFilesOf snapshot }
  refine ⟨?_, fun m hm => (hsent m hm).imp_left fun hm => ?_⟩
  · rw [hdb]
    exact hn''.1
  · exact hn''.2 ▸ hm

/-- The records a reconciliation writes: ones with an old version of which only size and time are
new, and ones with the identifiers drawn in order. -/
inductive Drawn (newId : Nat → VersionId) (taskId : Bytes) (origin : DeviceId)
    (known : List (FileRecord H)) :
    Nat → List (FileRecord H) → Nat → Prop where
  | nil (used : Nat) : Drawn newId taskId origin known used [] used
  | touched {used used' : Nat} {old : FileRecord H} {rest : List (FileRecord H)} (size : Nat)
      (mtimeNs : Int) (hold : old ∈ known) (hrest : Drawn newId taskId origin known used rest used')
        :
      Drawn newId taskId origin known used ({ old with size := size, mtimeNs := mtimeNs } :: rest)
        used'
  | fresh {used used' : Nat} {r : FileRecord H} {rest : List (FileRecord H)}
      (hversion : r.versionId = newId used) (horigin : r.originDeviceId = origin)
      (htask : r.taskId = taskId)
      (hrest : Drawn newId taskId origin known (used + 1) rest used') :
      Drawn newId taskId origin known used (r :: rest) used'

theorem drawn_upsertsOf (config : ReconcileConfig) (newId : Nat → VersionId)
    (snapshot : List (SnapshotEntry H)) {known remaining : List (FileRecord H)}
    (hremaining : ∀ r ∈ remaining, r ∈ known) (used : Nat) (changed : List (SnapshotEntry H)) :
    Drawn newId config.taskId config.originDeviceId known used
      (upsertsOf config newId used remaining changed snapshot).1
      (upsertsOf config newId used remaining changed snapshot).2 := by
  induction snapshot generalizing remaining used changed with
  | nil => exact .nil used
  | cons entry snapshot ih =>
    have hsub : ∀ r ∈ remaining.dropWhile fun record => record.relativePath < entry.relativePath,
        r ∈ known := fun r hr => hremaining r ((List.dropWhile_sublist _).subset hr)
    rw [upsertsOf]
    dsimp only
    split
    · rename_i record hexisting _
      split
      · refine .touched _ _ ?_ (ih hsub _ _)
        exact hsub record (List.mem_of_mem_head? (Option.filter_eq_some_iff.mp hexisting).1)
      · exact ih hsub _ _
    · exact .fresh rfl rfl rfl (ih hsub _ _)

theorem ScanKeeps.reconcileUpserts {db0 db db' : Database H} (S : ScanKeeps D (versionsOf db0))
    {known : List (FileRecord H)} (hknown : ∀ r ∈ known, db0.records.find r.relativePath = some r)
    {newId : Nat → VersionId} {taskId : Bytes} {origin : DeviceId} {used used' : Nat}
    {upserts : List (FileRecord H)} (hdrawn : Drawn newId taskId origin known used upserts used')
    (h : D db) (hdb : VeritasSync.reconcileUpserts true db0.records.find db upserts = .ok db') :
    D db' := by
  induction hdrawn generalizing db with
  | nil used =>
    cases hdb
    exact h
  | touched size mtimeNs hold hrest ih =>
    rename_i old rest
    obtain ⟨db1, hstep, hdb⟩ := ok_of_bind hdb
    refine ih ?_ hdb
    have hfind := hknown old hold
    rw [reconcileUpsert, if_neg (by simp [hfind])] at hstep
    obtain ⟨-, rfl⟩ := Database.upsertFileRecord_eq_ok hstep
    refine S.touch _ { old with size := size, mtimeNs := mtimeNs } h ?_
    rw [versionsOf, hfind, Option.map_some]
  | fresh hversion horigin htask hrest ih =>
    rename_i r rest
    obtain ⟨db1, hstep, hdb⟩ := ok_of_bind hdb
    refine ih ?_ hdb
    rw [reconcileUpsert] at hstep
    split at hstep
    · exact S.recordNewVersion rfl h hstep
    · rename_i hsame
      obtain ⟨-, rfl⟩ := Database.upsertFileRecord_eq_ok hstep
      exact S.touch _ r h (by simpa [versionsOf] using hsame)

theorem ScanKeeps.reconcileDeletes {db0 db db' : Database H} (S : ScanKeeps D (versionsOf db0))
    {config : ReconcileConfig} {newId : Nat → VersionId} {paths : List Path} {used used' : Nat}
    (h : D db) (hdb : VeritasSync.reconcileDeletes true config db0.records.find newId used db paths
      = .ok (db', used')) : D db' := by
  induction paths generalizing db used with
  | nil =>
    cases hdb
    exact h
  | cons path paths ih =>
    obtain ⟨db1, hstep, hdb⟩ := ok_of_bind hdb
    rw [reconcileDelete, if_pos rfl] at hstep
    exact ih (S.recordNewVersion rfl h hstep) hdb

/-- The runtime's scan keeps what scans keep, and sends nothing. -/
theorem ScanKeeps.performScan {n : Node H} (S : ScanKeeps D (versionsOf n.db))
    (hkeyed : n.db.Keyed) (h : D n.db) :
    D (Node.performScan n).2.db ∧ (Node.performScan n).2.out = n.out := by
  refine of_wp (I := fun n' : Node H => D n'.db ∧ n'.out = n.out) ?_
  rw [Node.performScan, wp_bind]
  refine wp_check (fun _ _ => ⟨h, rfl⟩) fun hash _ => ?_
  rw [wp_bind]
  refine wp_check (fun _ _ => ⟨h, rfl⟩) fun snapshot _ => ?_
  rw [wp_bind, wp_state]
  refine wp_ite (fun _ => ⟨h, rfl⟩) fun _ => wp_ite (fun _ => ⟨h, rfl⟩) fun _ => ?_
  rw [wp_bind]
  refine wp_dbGet ⟨h, rfl⟩ (fun _ _ => ⟨h, rfl⟩) fun r db hdb => ⟨?_, rfl⟩
  obtain ⟨diff, db1, -, hupserts, hdeletes⟩ := reconcile_eq_ok hdb
  have hknown : ∀ r ∈ n.db.listFileRecords, n.db.records.find r.relativePath = some r := by
    intro r hr
    obtain ⟨q, hq⟩ := Database.mem_listFileRecords.mp hr
    rw [hkeyed q r hq, hq]
  have hdrawn := drawn_upsertsOf ⟨n.config.taskId, n.config.deviceId, 0, n.nowMs⟩ n.uuid snapshot
    (fun r (hr : r ∈ n.db.listFileRecords) => hr) n.uuidsUsed diff.createdOrChanged
  exact S.reconcileDeletes (S.reconcileUpserts hknown hdrawn h hupserts) hdeletes

omit [ContentHash H] in
theorem scanKeeps_trivial {previous : Path → Option VersionId} :
    ScanKeeps (H := H) (fun _ => True) previous :=
  ⟨fun _ _ _ => trivial, fun _ _ _ _ _ _ => trivial, fun _ _ _ _ _ _ _ _ _ => trivial,
    fun _ _ _ _ => trivial⟩

/-- A manifest that `RefreshLocal` sends describes the records it leaves. -/
theorem describes_of_refreshLocal {n : Node H} (hkeyed : n.db.Keyed) {m : VersionedManifest H}
    (hm : Frame.versionManifest m ∈ (Node.refreshLocal n).2.out) :
    Frame.versionManifest m ∈ n.out ∨ Describes (Node.refreshLocal n).2.db m :=
  (scanKeeps_trivial.refreshLocal hkeyed trivial).2 m hm

/-- The runtime's scan sends nothing. -/
theorem performScan_out {n : Node H} (hkeyed : n.db.Keyed) :
    (Node.performScan n).2.out = n.out := (scanKeeps_trivial.performScan hkeyed trivial).2

end Scans

end Node

end VeritasSync
