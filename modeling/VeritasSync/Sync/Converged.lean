import VeritasSync.Lib.Run
import VeritasSync.Sync.OneWay

/-!
# When a one-way target says that it has converged

`TargetIsConverged` looks at three things: there has been no error since the last manifest, there
has been a manifest, and no download is active.  What it is meant to say is that the target has what
the last manifest lists, on disk and in its records, and nothing else.

That is an invariant with two parts.  `Pending` holds in every state: each active download is for an
entry of the last manifest.  `Settled` holds as long as there is no error: each entry of the last
manifest is there or has a download, and no other path has a live record.  The first part is what
the code does not see to — a download for an older manifest stays active when a newer manifest
changes or drops its path — so it is a condition on the manifests (`Steady`).

The flag is computed from members that were made for other purposes, and whether they say what the
flag is meant to say takes an argument about every function that changes them.  Work on one entry
must not disturb what another entry has already got; that is `Spares`, and it is where it matters
that a part file has a name of its own.  A manifest replaces the last one, so everything that was
true of the old entries has to be established anew.  And a chunk may complete a file long after its
manifest.
-/

set_option autoImplicit false

namespace VeritasSync

open Exec (Within Keeps Same Wp)

/-- Records are keyed by their path, and a directory has neither size nor hash. -/
def Database.Tidy {H : Type} (db : Database H) : Prop :=
  ∀ p r, db.records.find p = some r →
    r.relativePath = p ∧ (r.kind = .directory → r.size = 0 ∧ r.contentHash = none)

theorem Database.Tidy.upsertFileRecord {H : Type} {db db' : Database H} {record : FileRecord H}
    (h : db.Tidy) (hrecord : record.kind = .directory → record.size = 0 ∧ record.contentHash = none)
    (hupsert : db.upsertFileRecord record = .ok db') : db'.Tidy := by
  obtain ⟨-, rfl⟩ := Database.upsertFileRecord_eq_ok hupsert
  intro p r hr
  rw [OrdMap.find_insert] at hr
  split at hr
  · rename_i hp
    cases hr
    exact ⟨hp.symm, hrecord⟩
  · exact h p r hr

theorem Database.Tidy.recordTombstone {H : Type} {db db' : Database H} {taskId : Bytes} {p : Path}
    {version : VersionId} {device : DeviceId} {clock : Nat} {now : Int} (h : db.Tidy)
    (htombstone : db.recordTombstone taskId p version device clock now = .ok db') :
    db'.Tidy ∧ ∃ tombstone, tombstone.kind = .tombstone ∧
      db'.records = db.records.insert p tombstone := by
  have htidy : db'.Tidy := by
    refine h.upsertFileRecord ?_ htombstone
    nofun
  obtain ⟨-, rfl⟩ := Database.upsertFileRecord_eq_ok htombstone
  exact ⟨htidy, _, rfl, rfl⟩

namespace OneWay

variable {H : Type}

/-! ## Having an entry -/

/-- `r` is a record of the entry. -/
def ManifestEntry.RecordedBy (entry : ManifestEntry H) (r : FileRecord H) : Prop :=
  match entry.contentHash with
  | .empty => r.kind = .directory ∧ r.size = entry.size ∧ r.contentHash = none
  | .hash hash => r.kind = .file ∧ r.size = entry.size ∧ r.contentHash = some hash
  | .malformed _ => False

/-- The entry is on disk. -/
def ManifestEntry.PresentIn [ContentHash H] (entry : ManifestEntry H) (folder : Folder) : Prop :=
  match entry.contentHash with
  | .empty => folder.tree.find entry.relativePath = some .directory
  | .hash hash => ∃ content, folder.tree.find entry.relativePath = some (.file content) ∧
      blake3 content = hash
  | .malformed _ => False

/-- The paths on disk that work on an entry may change. -/
def ManifestEntry.Owns (entry : ManifestEntry H) (q : Path) : Prop :=
  q = entry.relativePath ∨ (entry.isDirectory = false ∧ q = Folder.partPath entry.relativePath)

/-- A download is for the file that its entry lists. -/
structure Download.Sound (d : Download H) : Prop where
  hash : d.entry.contentHash = .hash d.hash
  path : d.receiver.relativePath = d.entry.relativePath
  expectedHash : d.receiver.expectedHash = d.hash
  expectedSize : d.receiver.expectedSize = d.entry.size

theorem isDirectory_iff {entry : ManifestEntry H} :
    entry.isDirectory = true ↔ entry.contentHash = .empty := by
  obtain ⟨path, size, contentHash⟩ := entry
  cases contentHash <;> simp [ManifestEntry.isDirectory]

theorem Download.Sound.isFile {d : Download H} (h : d.Sound) : d.entry.isDirectory = false := by
  rw [Bool.eq_false_iff, Ne, isDirectory_iff, h.hash]
  nofun

namespace Node

/-- The node has the entry: its record, and what is on disk. -/
structure Has [ContentHash H] (n : Node H) (entry : ManifestEntry H) : Prop where
  record : ∃ r, n.db.records.find entry.relativePath = some r ∧ entry.RecordedBy r
  present : entry.PresentIn n.folder

/-! ## What work on an entry leaves alone

An entry owns its path and the path of its part file.  The work on it, which may write, rename,
create directories, begin a transfer or end one, stays at these two paths and above them. -/

/-- `n'` comes from `n` by work on the entry.  What it writes, renames or removes lies at the path
of the entry or of its part file, and what it creates above these are directories. -/
structure Spares (entry : ManifestEntry H) (n n' : Node H) : Prop where
  records : ∀ q, q ≠ entry.relativePath → n'.db.records.find q = n.db.records.find q
  files : ∀ q m, ¬ entry.Owns q → n.folder.tree.find q = some m → n'.folder.tree.find q = some m
  tidy : n.db.Tidy → n'.db.Tidy
  config : n'.config = n.config
  lastError : n'.lastError = n.lastError
  receivedManifest : n'.receivedManifest = n.receivedManifest

instance (entry : ManifestEntry H) : IsPreorder (Node H) (Spares entry) where
  refl _ := ⟨fun _ _ => rfl, fun _ _ _ h => h, id, rfl, rfl, rfl⟩
  trans _ _ _ h h' :=
    ⟨fun q hq => (h'.records q hq).trans (h.records q hq),
      fun q m hq hm => h'.files q m hq (h.files q m hq hm), h'.tidy ∘ h.tidy,
      h'.config.trans h.config, h'.lastError.trans h.lastError,
      h'.receivedManifest.trans h.receivedManifest⟩

/-- Members that the relation does not mention have changed. -/
theorem Spares.of_same {entry : ManifestEntry H} {n n' : Node H}
    (hrecords : n'.db.records = n.db.records) (hfolder : n'.folder = n.folder)
    (hrest : n'.config = n.config ∧ n'.lastError = n.lastError ∧
      n'.receivedManifest = n.receivedManifest) : Spares entry n n' where
  records q _ := by rw [hrecords]
  files q m _ hm := by rw [hfolder, hm]
  tidy htidy p r hr := htidy p r (hrecords ▸ hr)
  config := hrest.1
  lastError := hrest.2.1
  receivedManifest := hrest.2.2

theorem Spares.with_downloads {entry : ManifestEntry H} {n n' : Node H} (h : Spares entry n n')
    (downloads : List (Download H)) (trace : Trace H) :
    Spares entry n { n' with downloads, trace } :=
  ⟨h.records, h.files, h.tidy, h.config, h.lastError, h.receivedManifest⟩

theorem spares_folderDo {entry : ManifestEntry H} {f : Folder → Except Error Folder}
    (hf : ∀ folder folder', f folder = .ok folder' → ∀ q m, ¬ entry.Owns q →
      folder.tree.find q = some m → folder'.tree.find q = some m) :
    Within (Spares entry) (folderDo f) := by
  refine Exec.within_atomic fun n _ n' h => ?_
  obtain ⟨folder', hfolder, h⟩ := ok_of_map h
  cases h
  exact ⟨fun _ _ => rfl, hf _ _ hfolder, id, rfl, rfl, rfl⟩

theorem spares_upsertRecord {entry : ManifestEntry H} {kind : FileKind} {size : Nat}
    {contentHash : Option H} (hkind : kind = .directory → size = 0 ∧ contentHash = none) :
    Within (Spares entry) (upsertRecord entry.relativePath kind size contentHash) := by
  refine Exec.within_bind (fun n => ⟨fun _ _ => rfl, fun _ _ _ h => h, id, rfl, rfl, rfl⟩)
    fun _ => ?_
  refine Exec.within_bind Exec.within_state fun n => Exec.within_atomic fun n _ n' h => ?_
  obtain ⟨db', hdb, h⟩ := ok_of_map h
  cases h
  refine ⟨fun q hq => ?_, fun _ _ _ h => h, fun htidy => htidy.upsertFileRecord hkind hdb, rfl, rfl,
    rfl⟩
  obtain ⟨-, rfl⟩ := Database.upsertFileRecord_eq_ok hdb
  exact OrdMap.find_insert_of_ne _ _ hq

/-- Work of a receiver on the part file of an entry and on the transfers. -/
structure StoreSpares (entry : ManifestEntry H) (s s' : Store H) : Prop where
  records : s'.db.records = s.db.records
  files : ∀ q m, ¬ entry.Owns q → s.folder.tree.find q = some m → s'.folder.tree.find q = some m

instance (entry : ManifestEntry H) : IsPreorder (Store H) (StoreSpares entry) where
  refl _ := ⟨rfl, fun _ _ _ h => h⟩
  trans _ _ _ h h' :=
    ⟨h'.records.trans h.records, fun q m hq hm => h'.files q m hq (h.files q m hq hm)⟩

theorem spares_onStore {α : Type} {entry : ManifestEntry H} {m : Exec (Store H) Error α}
    (hm : Within (StoreSpares entry) m) : Within (Spares entry) (onStore m) := by
  intro n
  obtain ⟨hrecords, hfiles⟩ := hm n.store
  have hrecords' : (onStore m n).2.db.records = n.db.records := hrecords
  refine ⟨fun q _ => by rw [hrecords'], hfiles, fun htidy => ?_, rfl, rfl, rfl⟩
  intro p r hr
  rw [hrecords'] at hr
  exact htidy p r hr

theorem storeSpares_folderDo {entry : ManifestEntry H} {f : Folder → Except Error Folder}
    (hf : ∀ folder folder', f folder = .ok folder' → ∀ q m, ¬ entry.Owns q →
      folder.tree.find q = some m → folder'.tree.find q = some m) :
    Within (StoreSpares entry) (Store.folderDo f) := by
  refine Exec.within_atomic fun s _ s' h => ?_
  obtain ⟨folder', hfolder, h⟩ := ok_of_map h
  cases h
  exact ⟨rfl, hf _ _ hfolder⟩

theorem storeSpares_dbDo {entry : ManifestEntry H} {f : Database H → Except Error (Database H)}
    (hf : ∀ db db', f db = .ok db' → ∃ transfers, db' = { db with transfers }) :
    Within (StoreSpares entry) (Store.dbDo f) := by
  refine Exec.within_atomic fun s _ s' h => ?_
  obtain ⟨db', hdb, h⟩ := ok_of_map h
  cases h
  obtain ⟨transfers, rfl⟩ := hf _ _ hdb
  exact ⟨rfl, fun _ _ _ h => h⟩

variable [ContentHash H]

/-- What another entry has stays. -/
theorem Spares.has {entry other : ManifestEntry H} {n n' : Node H} (h : Spares entry n n')
    (hother : ¬ entry.Owns other.relativePath) (hhas : n.Has other) : n'.Has other := by
  obtain ⟨⟨r, hr, hrecorded⟩, hpresent⟩ := hhas
  refine ⟨⟨r, ?_, hrecorded⟩, ?_⟩
  · rw [h.records _ fun heq => hother (.inl heq), hr]
  · revert hpresent
    rw [ManifestEntry.PresentIn, ManifestEntry.PresentIn]
    cases other.contentHash with
    | empty => exact h.files _ _ hother
    | hash hash =>
      rintro ⟨content, hfind, hhash⟩
      exact ⟨content, h.files _ _ hother hfind, hhash⟩
    | malformed e => exact id

omit [ContentHash H] in
theorem wp_onStore {α : Type} {m : Exec (Store H) Error α} {Q : α → Node H → Prop}
    {E : Error → Node H → Prop} {n : Node H} :
    Wp (onStore m) Q E n ↔
      Wp m (fun a s => Q a (n.setStore s)) (fun e s => E e (n.setStore s)) n.store := by
  rw [Wp, Wp, onStore]
  rcases m n.store with ⟨e | a, s⟩
  · exact Iff.rfl
  · exact Iff.rfl

section Receiver

variable {entry : ManifestEntry H} {receiver : DownloadReceiver H}
  (hpath : receiver.relativePath = entry.relativePath) (hfile : entry.isDirectory = false)

include hpath hfile

theorem spares_acceptChunk (index offset : Nat) (bytes : Bytes) (chunkHash : H) :
    Within (Spares entry) (onStore (receiver.acceptChunk index offset bytes chunkHash)) := by
  refine spares_onStore (Exec.within_bind (Exec.within_check _) fun _ => ?_)
  refine Exec.within_ite (fun _ => Exec.within_pure _) fun _ => ?_
  refine Exec.within_bind (storeSpares_folderDo fun folder folder' h q m hq => ?_)
    fun _ => Exec.within_pure _
  rw [hpath] at h
  exact Folder.writePartialChunk_spares h fun heq => hq (.inr ⟨hfile, heq⟩)

omit [ContentHash H] hpath hfile in
theorem spares_persistAcceptedChunks (indices : List Nat) (now : Int) :
    Within (Spares entry) (onStore (receiver.persistAcceptedChunks indices now)) := by
  refine spares_onStore (Exec.within_bind (Exec.within_check _) fun _ => ?_)
  exact storeSpares_dbDo fun db db' h => Database.markTransferChunksCompleted_eq_ok h

theorem spares_commit (now : Int) :
    Within (Spares entry) (onStore (receiver.commit now)) := by
  refine spares_onStore (Exec.within_bind (Exec.within_check _) fun _ => ?_)
  refine Exec.within_bind (storeSpares_folderDo fun folder folder' h q m hq hm => ?_)
    fun _ => storeSpares_dbDo fun db db' h => Database.updateTransferState_eq_ok h
  rw [hpath] at h
  obtain ⟨content, -, -, -, -, -, hfind⟩ := Folder.commitPartial_eq_ok h
  rw [hfind, if_neg fun heq => hq (.inl heq), if_neg fun heq => hq (.inr ⟨hfile, heq⟩)]
  exact hm

omit hfile in
/-- A commit that returns leaves the file at its destination. -/
theorem wp_commit (now : Int) (n : Node H) :
    Wp (onStore (receiver.commit now))
      (fun _ n' => ∃ content, n'.folder.tree.find entry.relativePath = some (.file content) ∧
        content.length = receiver.expectedSize ∧ blake3 content = receiver.expectedHash)
      (fun _ _ => True) n := by
  rw [wp_onStore, DownloadReceiver.commit, Exec.wp_bind]
  refine Exec.wp_check (fun _ _ => trivial) fun _ _ => ?_
  rw [Exec.wp_bind]
  refine Exec.wp_atomic (fun _ _ => trivial) fun _ s hcommit => ?_
  obtain ⟨folder, hfolder, h⟩ := ok_of_map hcommit
  cases h
  refine Exec.wp_atomic (fun _ _ => trivial) fun _ s hstate => ?_
  obtain ⟨db, -, h⟩ := ok_of_map hstate
  cases h
  obtain ⟨content, -, hsize, hhash, -, -, hfind⟩ := Folder.commitPartial_eq_ok hfolder
  refine ⟨content, ?_, hsize, hhash⟩
  show folder.tree.find entry.relativePath = _
  rw [hfind, if_pos hpath.symm]

end Receiver

/-! ## Work on one entry -/

/-- Work on an entry that may start a download for it. -/
structure Moves (entry : ManifestEntry H) (n n' : Node H) : Prop extends Spares entry n n' where
  kept : ∀ d ∈ n.downloads, d ∈ n'.downloads
  started : ∀ d ∈ n'.downloads, d ∈ n.downloads ∨ (d.entry = entry ∧ d.Sound)

omit [ContentHash H] in
theorem Moves.refl (entry : ManifestEntry H) (n : Node H) : Moves entry n n :=
  ⟨refl_of (Spares entry) n, fun _ h => h, fun _ h => .inl h⟩

omit [ContentHash H] in
/-- Members that the relation does not mention have changed. -/
theorem Moves.of_same {entry : ManifestEntry H} {n n' : Node H}
    (hrecords : n'.db.records = n.db.records) (hfolder : n'.folder = n.folder)
    (hdownloads : n'.downloads = n.downloads)
    (hrest : n'.config = n.config ∧ n'.lastError = n.lastError ∧
      n'.receivedManifest = n.receivedManifest) : Moves entry n n' where
  toSpares := .of_same hrecords hfolder hrest
  kept _ hd := hdownloads ▸ hd
  started _ hd := .inl (hdownloads ▸ hd)

instance (entry : ManifestEntry H) : IsPreorder (Node H) (Moves entry) where
  refl := Moves.refl entry
  trans _ _ _ h h' :=
    ⟨trans_of (Spares entry) h.toSpares h'.toSpares, fun d hd => h'.kept d (h.kept d hd),
      fun d hd => (h'.started d hd).elim (h.started d) .inr⟩

omit [ContentHash H] in
/-- Most of the work has nothing to do with downloads. -/
theorem moves_of_spares {α : Type} {entry : ManifestEntry H} {m : NodeM H α}
    (h : Within (Spares entry) m) (hdownloads : Within (Same Node.downloads) m) :
    Within (Moves entry) m := by
  intro n
  have hsame : (m n).2.downloads = n.downloads := hdownloads n
  exact ⟨h n, fun d hd => hsame ▸ hd, fun d hd => .inl (hsame ▸ hd)⟩

section Work

variable {entry : ManifestEntry H}

omit [ContentHash H] in
theorem moves_folderDo {f : Folder → Except Error Folder}
    (hf : ∀ folder folder', f folder = .ok folder' → ∀ q m, ¬ entry.Owns q →
      folder.tree.find q = some m → folder'.tree.find q = some m) :
    Within (Moves entry) (folderDo f) := by
  refine moves_of_spares (spares_folderDo hf) (Exec.within_atomic fun n _ n' h => ?_)
  obtain ⟨folder', -, h⟩ := ok_of_map h
  cases h
  rfl

omit [ContentHash H] in
theorem downloads_upsertRecord (p : Path) (kind : FileKind) (size : Nat) (contentHash : Option H) :
    Within (Same Node.downloads) (upsertRecord p kind size contentHash) := by
  refine Exec.within_bind (fun _ => rfl) fun _ => Exec.within_bind Exec.within_state fun _ => ?_
  refine Exec.within_atomic fun n _ n' h => ?_
  obtain ⟨db', -, h⟩ := ok_of_map h
  cases h
  rfl

omit [ContentHash H] in
theorem moves_upsertRecord {kind : FileKind} {size : Nat} {contentHash : Option H}
    (hkind : kind = .directory → size = 0 ∧ contentHash = none) :
    Within (Moves entry) (upsertRecord entry.relativePath kind size contentHash) :=
  moves_of_spares (spares_upsertRecord hkind) (downloads_upsertRecord _ _ _ _)

theorem moves_openTransfer (hfile : entry.isDirectory = false) (hash : H) :
    Within (Moves entry) (openTransfer entry.relativePath hash) := by
  refine Exec.within_bind Exec.within_state fun n => Exec.within_bind (Exec.within_check _)
    fun found => ?_
  split
  · exact Exec.within_pure _
  · refine Exec.within_bind (fun n => Moves.of_same rfl rfl rfl ⟨rfl, rfl, rfl⟩) fun _ => ?_
    refine Exec.within_bind (moves_folderDo fun folder folder' h q m hq hm => ?_) fun _ => ?_
    · have hremoved := Folder.discardPartial_eq_ok h
      rw [hremoved.find, if_neg fun heq => hq (.inr ⟨hfile, heq⟩), hm]
    · refine Exec.within_bind (Exec.within_atomic fun n _ n' h => ?_) fun _ => Exec.within_pure _
      obtain ⟨db', hdb, h⟩ := ok_of_map h
      cases h
      obtain ⟨-, rfl⟩ := Database.createTransfer_eq_ok hdb
      exact Moves.of_same rfl rfl rfl ⟨rfl, rfl, rfl⟩

theorem moves_commit {receiver : DownloadReceiver H}
    (hpath : receiver.relativePath = entry.relativePath) (hfile : entry.isDirectory = false)
    (now : Int) : Within (Moves entry) (onStore (receiver.commit now)) :=
  moves_of_spares (spares_commit hpath hfile now) fun _ => rfl

theorem moves_beginTransfer {hash : H} (hhash : entry.contentHash = .hash hash) :
    Within (Moves entry) (beginTransfer entry hash) := by
  have hfile : entry.isDirectory = false := by
    rw [Bool.eq_false_iff, Ne, isDirectory_iff, hhash]
    nofun
  refine Exec.within_bind (moves_openTransfer hfile hash) fun transferId => ?_
  refine Exec.within_check_bind fun n receiver hreceiver => ?_
  obtain ⟨-, rfl⟩ := DownloadReceiver.create_eq_ok hreceiver
  refine Exec.within_bind (Exec.within_check _) fun request => Exec.within_ite (fun _ => ?_)
    fun _ => ?_
  · refine Exec.within_bind Exec.within_state fun n => ?_
    exact Exec.within_bind (moves_commit rfl hfile _) fun _ => moves_upsertRecord nofun
  · refine Exec.within_bind (Exec.within_update fun n => ?_) fun _ => ?_
    · refine ⟨Spares.of_same rfl rfl ⟨rfl, rfl, rfl⟩, fun d hd => List.mem_append_left _ hd,
        fun d hd => ?_⟩
      rcases List.mem_append.mp hd with hd | hd
      · exact .inl hd
      · rw [List.mem_singleton.mp hd]
        exact .inr ⟨rfl, hhash, rfl, rfl, rfl⟩
    · refine Exec.within_bind (Exec.within_check _) fun _ => Exec.within_update fun n => ?_
      exact Moves.of_same rfl rfl rfl ⟨rfl, rfl, rfl⟩

omit [ContentHash H] in
theorem decodeHash_eq_ok {hash : H} (h : entry.decodeHash = .ok hash) :
    entry.contentHash = .hash hash := by
  rw [ManifestEntry.decodeHash] at h
  split at h
  · cases h
  · rename_i heq
    cases h
    exact heq
  · cases h

theorem moves_beginDownload : Within (Moves entry) (beginDownload entry) := by
  refine Exec.within_ite (fun _ => ?_) fun _ => ?_
  · refine Exec.within_bind (moves_folderDo fun folder folder' h q m hq hm => ?_) fun _ => ?_
    · exact Folder.writeAtomically_spares h (fun heq => hq (.inl heq)) hm
    · exact Exec.within_bind (Exec.within_check _) fun _ => moves_upsertRecord nofun
  · refine Exec.within_check_bind fun n hash hhash => ?_
    refine Exec.within_bind Exec.within_state fun n => ?_
    exact Exec.within_ite (fun _ => Exec.within_pure _) fun _ =>
      moves_beginTransfer (decodeHash_eq_ok hhash)

/-- **Work on one entry** touches nothing else.  The part file belongs to the entry as much as its
path does. -/
theorem moves_applyEntry : Within (Moves entry) (applyEntry entry) := by
  refine Exec.within_bind (Exec.within_check _) fun has => ?_
  refine Exec.within_ite (fun _ => Exec.within_pure _) fun _ => ?_
  refine Exec.within_ite (fun _ => ?_) fun _ => moves_beginDownload
  refine Exec.within_bind (moves_folderDo fun folder folder' h q m hq hm => ?_) fun _ =>
    moves_upsertRecord fun _ => ⟨rfl, rfl⟩
  exact Folder.ensureDirectory_spares h (fun heq => hq (.inl heq)) hm

end Work

/-! ## The invariant -/

/-- The manifest lists what a folder can hold: no two entries share a path, directories have no
size, an empty file has the hash of nothing, and no entry is in the place of another's part file. -/
structure Faithful (m : Manifest H) : Prop where
  nodup : (paths m).Nodup
  directory : ∀ e ∈ m.entries, e.isDirectory = true → e.size = 0
  empty : ∀ e ∈ m.entries, e.size = 0 → ∀ hash, e.contentHash = .hash hash → hash = blake3 []
  part : ∀ e ∈ m.entries, ∀ e' ∈ m.entries, e'.isDirectory = false →
    e.relativePath ≠ Folder.partPath e'.relativePath

/-- **In every state**: each download is for an entry of the last manifest. -/
structure Pending (n : Node H) : Prop where
  tidy : n.db.Tidy
  faithful : ∀ m, n.receivedManifest = some m → Faithful m
  downloads : ∀ d ∈ n.downloads, d.Sound ∧
    ∃ m, n.receivedManifest = some m ∧ d.entry ∈ m.entries

/-- **As long as there is no error**: each entry of the manifest is there or on its way, and no
other path has a live record. -/
structure Settled (m : Manifest H) (n : Node H) : Prop where
  live : ∀ p r, n.db.records.find p = some r → r.kind ≠ .tombstone → p ∈ paths m
  entries : ∀ e ∈ m.entries, n.Has e ∨ ∃ d ∈ n.downloads, d.entry = e

omit [ContentHash H] in
theorem wp_newUuidV4 {n : Node H} {Q : Bytes → Node H → Prop} {E : Error → Node H → Prop} :
    Wp newUuidV4 Q E n ↔ Q (n.uuid n.uuidsUsed) { n with uuidsUsed := n.uuidsUsed + 1 } := Iff.rfl

omit [ContentHash H] in
theorem wp_upsertRecord (p : Path) (kind : FileKind) (size : Nat) (contentHash : Option H)
    (n : Node H) : Wp (upsertRecord p kind size contentHash)
      (fun _ n' => n'.folder = n.folder ∧ ∃ r, n'.db.records.find p = some r ∧ r.kind = kind ∧
        r.size = size ∧ r.contentHash = contentHash) (fun _ _ => True) n := by
  rw [upsertRecord, Exec.wp_bind, wp_newUuidV4, Exec.wp_bind, Exec.wp_state]
  refine Exec.wp_atomic (fun _ _ => trivial) fun _ n' h => ?_
  obtain ⟨db, hdb, h⟩ := ok_of_map h
  cases h
  obtain ⟨-, rfl⟩ := Database.upsertFileRecord_eq_ok hdb
  exact ⟨rfl, _, OrdMap.find_insert_self _ _ _, rfl, rfl, rfl⟩

/-- A file that is in place gets its record. -/
theorem wp_record_file {e : ManifestEntry H} {hash : H} {content : Bytes} {n : Node H}
    (hhash : e.contentHash = .hash hash)
    (hfind : n.folder.tree.find e.relativePath = some (.file content))
    (hcontent : blake3 content = hash) :
    Wp (upsertRecord e.relativePath .file e.size (some hash)) (fun _ n' => n'.Has e)
      (fun _ _ => True) n := by
  refine Exec.wp_mono (wp_upsertRecord _ _ _ _ n) (fun _ n' h => ?_) fun _ _ _ => trivial
  obtain ⟨hfolder, r, hr, hkind, hsize, hrhash⟩ := h
  refine ⟨⟨r, hr, ?_⟩, ?_⟩
  · rw [ManifestEntry.RecordedBy, hhash]
    exact ⟨hkind, hsize, hrhash⟩
  · rw [ManifestEntry.PresentIn, hhash, hfolder]
    exact ⟨content, hfind, hcontent⟩

/-- A download is started, or the file is there already. -/
theorem wp_beginTransfer {e : ManifestEntry H} {hash : H} (hhash : e.contentHash = .hash hash)
    (n : Node H) : Wp (beginTransfer e hash)
      (fun _ n' => n'.Has e ∨ ∃ d ∈ n'.downloads, d.entry = e) (fun _ _ => True) n := by
  rw [beginTransfer, Exec.wp_bind]
  refine Exec.wp_mono (Q := fun _ _ => True) (E := fun _ _ => True) (Exec.wp_of trivial)
    (fun transferId n₁ _ => ?_) fun _ _ _ => trivial
  rw [Exec.wp_bind]
  refine Exec.wp_check (fun _ _ => trivial) fun receiver hreceiver => ?_
  obtain ⟨-, rfl⟩ := DownloadReceiver.create_eq_ok hreceiver
  rw [Exec.wp_bind]
  refine Exec.wp_check (fun _ _ => trivial) fun request _ => Exec.wp_ite (fun _ => ?_) fun _ => ?_
  · rw [Exec.wp_bind, Exec.wp_state, Exec.wp_bind]
    refine Exec.wp_mono (wp_commit rfl _ n₁) (fun _ n₂ hn₂ => ?_) fun _ _ _ => trivial
    obtain ⟨content, hfind, -, hcontent⟩ := hn₂
    refine Exec.wp_mono (wp_record_file hhash hfind hcontent)
      (fun _ _ h => .inl h) fun _ _ _ => trivial
  · rw [Exec.wp_bind, Exec.wp_update, Exec.wp_bind]
    refine Exec.wp_check (fun _ _ => trivial) fun _ _ => ?_
    rw [send, Exec.wp_update]
    exact .inr ⟨_, List.mem_append_right _ List.mem_cons_self, rfl⟩

/-- The manifest passes the checks of `ApplyManifest`. -/
def Accepted (m : Manifest H) : Prop := m.entries.forM checkEntry = .ok () ∧ (paths m).Nodup

/-- A manifest that the target can follow: what it lists can be had, and it lists every file that is
on its way. -/
structure Follows (n : Node H) (m : Manifest H) : Prop where
  faithful : Faithful m
  downloads : ∀ d ∈ n.downloads, d.entry ∈ m.entries

omit [ContentHash H] in
theorem mem_updateFirst_of_find {p : Download H → Bool} {f : Download H → Download H}
    {l : List (Download H)} {d x : Download H} (h : l.find? p = some d)
    (hx : x ∈ VeritasSync.Node.updateFirst p f l) : x ∈ l ∨ x = f d := by
  induction l with
  | nil => cases h
  | cons y l ih =>
    rw [VeritasSync.Node.updateFirst] at hx
    cases hy : p y with
    | true =>
      rw [List.find?_cons, hy] at h
      cases h
      rw [if_pos hy] at hx
      rcases List.mem_cons.mp hx with rfl | hx
      · exact .inr rfl
      · exact .inl (List.mem_cons_of_mem _ hx)
    | false =>
      rw [List.find?_cons, hy] at h
      rw [if_neg (by rw [hy]; exact Bool.false_ne_true)] at hx
      rcases List.mem_cons.mp hx with rfl | hx
      · exact .inl List.mem_cons_self
      · exact (ih h hx).imp_left (List.mem_cons_of_mem _)

omit [ContentHash H] in
theorem map_entry_updateFirst {p : Download H → Bool} {f : Download H → Download H}
    (hf : ∀ d, (f d).entry = d.entry) (l : List (Download H)) :
    (VeritasSync.Node.updateFirst p f l).map Download.entry = l.map Download.entry := by
  induction l with
  | nil => rfl
  | cons x l ih =>
    rw [VeritasSync.Node.updateFirst]
    split
    · rw [List.map_cons, List.map_cons, hf]
    · rw [List.map_cons, List.map_cons, ih]

omit [ContentHash H] in
/-- What is not the first match is not erased. -/
theorem mem_eraseP_or_find {p : Download H → Bool} {l : List (Download H)} {x : Download H}
    (hx : x ∈ l) : x ∈ l.eraseP p ∨ l.find? p = some x := by
  induction l with
  | nil => cases hx
  | cons y l ih =>
    rw [List.eraseP_cons, List.find?_cons]
    cases hy : p y with
    | true =>
      rcases List.mem_cons.mp hx with rfl | hx
      · exact .inr rfl
      · exact .inl hx
    | false =>
      rcases List.mem_cons.mp hx with rfl | hx
      · exact .inl List.mem_cons_self
      · exact (ih hx).imp_left (List.mem_cons_of_mem _)

/-- The downloads `l'` come from `l` by work on one of them, which is now `d`. -/
structure Tracks (chunk : Chunk H) (l l' : List (Download H)) (d : Download H) : Prop where
  found : l'.find? (ownsChunk chunk) = some d
  sound : ∀ d ∈ l', d.Sound
  entries : l'.map Download.entry = l.map Download.entry

theorem Tracks.of_eq {chunk : Chunk H} {l l' l'' : List (Download H)} {d : Download H}
    (h : Tracks chunk l l' d) (heq : l'' = l') : Tracks chunk l l'' d := by
  rw [heq]
  exact h

theorem Tracks.updateFirst {chunk : Chunk H} {l l' : List (Download H)} {d : Download H}
    {f : Download H → Download H} (h : Tracks chunk l l' d) (hentry : ∀ d, (f d).entry = d.entry)
    (htransfer : ∀ d, (f d).transferId = d.transferId ∧ (f d).hash = d.hash)
    (hsound : (f d).Sound) :
    Tracks chunk l (VeritasSync.Node.updateFirst (ownsChunk chunk) f l') (f d) where
  found := by
    have howns : ownsChunk chunk d = true := List.find?_some h.found
    refine VeritasSync.Node.find?_updateFirst h.found ?_
    rw [ownsChunk, (htransfer d).1, (htransfer d).2]
    exact howns
  sound x hx := by
    rcases mem_updateFirst_of_find h.found hx with hx | rfl
    · exact h.sound x hx
    · exact hsound
  entries := (map_entry_updateFirst hentry l').trans h.entries

/-- Work on a download that may end it.  Every download that it leaves is for an entry that had
one. -/
structure Works (entry : ManifestEntry H) (n n' : Node H) : Prop extends Spares entry n n' where
  sound : ∀ d ∈ n'.downloads, d.Sound
  entries : ∀ d ∈ n'.downloads, d.entry ∈ n.downloads.map Download.entry

/-- The work has come to a good end. -/
structure Ends (entry : ManifestEntry H) (n n' : Node H) : Prop extends Works entry n n' where
  others : ∀ e, e ≠ entry → e ∈ n.downloads.map Download.entry →
    e ∈ n'.downloads.map Download.entry
  has : n'.Has entry ∨ entry ∈ n'.downloads.map Download.entry

theorem Tracks.works {chunk : Chunk H} {n n' : Node H} {d : Download H}
    (h : Tracks chunk n.downloads n'.downloads d) (hspares : Spares d.entry n n') :
    Works d.entry n n' :=
  ⟨hspares, h.sound, fun _ hd => h.entries ▸ List.mem_map_of_mem hd⟩

theorem Tracks.ends {chunk : Chunk H} {n n' : Node H} {d : Download H}
    (h : Tracks chunk n.downloads n'.downloads d) (hspares : Spares d.entry n n') :
    Ends d.entry n n' :=
  ⟨h.works hspares, fun _ _ he => h.entries ▸ he,
    .inr (List.mem_map_of_mem (List.mem_of_find?_eq_some h.found))⟩

/-- **The end of `AcceptChunk`.**  The commit may throw, and then the download stays. -/
theorem wp_settleDownload {chunk : Chunk H} {d : Download H} {n n₁ : Node H}
    (htracks : Tracks chunk n.downloads n₁.downloads d) (hspares : Spares d.entry n n₁) :
    Wp (settleDownload chunk d) (fun _ n' => Ends d.entry n n') (fun _ n' => Works d.entry n n')
      n₁ := by
  have hsound : d.Sound := htracks.sound d (List.mem_of_find?_eq_some htracks.found)
  rw [settleDownload]
  refine Exec.wp_when (fun _ => ?_) fun _ => htracks.ends hspares
  rw [Exec.wp_bind, commitDownload, Exec.wp_bind, Exec.wp_state, Exec.wp_bind]
  have hworks : ∀ n₂, Spares d.entry n₁ n₂ → n₂.downloads = n₁.downloads → Works d.entry n n₂ :=
    fun n₂ h hsame => (htracks.of_eq hsame).works (trans_of (Spares d.entry) hspares h)
  refine Exec.wp_mono (Exec.wp_within (spares_commit hsound.path hsound.isFile (nowMs n₁))
    (Exec.wp_within (R := Same Node.downloads) (fun _ => rfl)
      (wp_commit hsound.path (nowMs n₁) n₁)))
    (fun _ n₂ h₂ => ?_) fun _ n₂ h₂ => hworks n₂ h₂.1 h₂.2.1
  obtain ⟨hspares₂, hsame₂, content, hfind, -, hcontent⟩ := h₂
  refine Exec.wp_mono (Exec.wp_within (spares_upsertRecord nofun) (Exec.wp_within
    (downloads_upsertRecord _ _ _ _) (wp_record_file hsound.hash hfind
      (hcontent.trans hsound.expectedHash)))) (fun _ n₃ h₃ => ?_) fun _ n₃ h₃ => ?_
  · obtain ⟨hspares₃, hsame₃, hhas⟩ := h₃
    have hsame : n₃.downloads = n₁.downloads := hsame₃.trans hsame₂
    have hspares' : Spares d.entry n n₃ :=
      trans_of (Spares d.entry) hspares (trans_of (Spares d.entry) hspares₂ hspares₃)
    rw [Exec.wp_update]
    refine ⟨⟨hspares'.with_downloads _ _, fun x hx => ?_, fun x hx => ?_⟩, fun e hne he => ?_,
      .inl ⟨hhas.record, hhas.present⟩⟩
    · exact htracks.sound x (hsame ▸ List.mem_of_mem_eraseP hx)
    · rw [← htracks.entries, ← hsame]
      exact List.mem_map_of_mem (List.mem_of_mem_eraseP hx)
    · rw [← htracks.entries] at he
      obtain ⟨x, hx, rfl⟩ := List.mem_map.mp he
      rcases mem_eraseP_or_find (p := ownsChunk chunk) hx with hx | hx
      · show x.entry ∈ (n₃.downloads.eraseP (ownsChunk chunk)).map Download.entry
        rw [hsame]
        exact List.mem_map_of_mem hx
      · cases htracks.found.symm.trans hx
        exact absurd rfl hne
  · exact hworks n₃ (trans_of (Spares d.entry) hspares₂ h₃.1) (h₃.2.1.trans hsame₂)

/-- The receiver stays the receiver of its file. -/
theorem wp_acceptChunk (receiver : DownloadReceiver H) (index offset : Nat) (bytes : Bytes)
    (chunkHash : H) (n : Node H) :
    Wp (onStore (receiver.acceptChunk index offset bytes chunkHash))
      (fun r _ => r.2.relativePath = receiver.relativePath ∧
        r.2.expectedHash = receiver.expectedHash ∧ r.2.expectedSize = receiver.expectedSize)
      (fun _ _ => True) n := by
  rw [wp_onStore, DownloadReceiver.acceptChunk, Exec.wp_bind]
  refine Exec.wp_check (fun _ _ => trivial) fun _ _ =>
    Exec.wp_ite (fun _ => ⟨rfl, rfl, rfl⟩) fun _ => ?_
  rw [Exec.wp_bind]
  exact Exec.wp_atomic (fun _ _ => trivial) fun _ _ _ => ⟨rfl, rfl, rfl⟩

/-- **`AcceptChunk`** ends well or throws.  In either case nothing but the entry of the download is
affected. -/
theorem wp_acceptInto {chunk : Chunk H} {d : Download H} {n : Node H}
    (hsound : ∀ d ∈ n.downloads, d.Sound) (hfound : n.downloads.find? (ownsChunk chunk) = some d) :
    Wp (acceptInto chunk d) (fun _ n' => Ends d.entry n n') (fun _ n' => Works d.entry n n') n := by
  have htracks : Tracks chunk n.downloads n.downloads d := ⟨hfound, hsound, rfl⟩
  have hd := hsound d (List.mem_of_find?_eq_some hfound)
  rw [acceptInto]
  simp only
  rw [Exec.wp_bind]
  refine Exec.wp_mono (Exec.wp_within (spares_acceptChunk hd.path hd.isFile _ _ _ _) (Exec.wp_within
    (R := Same Node.downloads) (fun _ => rfl) (wp_acceptChunk d.receiver _ _ _ _ n)))
    (fun r n₁ h₁ => ?_) fun _ n₁ h₁ => ?_
  · obtain ⟨hspares, hsame, hpath, hexpected, hsize⟩ := h₁
    have htracks₁ : Tracks chunk n.downloads n₁.downloads d := htracks.of_eq hsame
    refine Exec.wp_ite (fun _ => htracks₁.ends hspares) fun _ => ?_
    rw [Exec.wp_bind, Exec.wp_update]
    have haccepted := htracks₁.updateFirst
      (f := fun d => d.accept r.2 (chunk.offset / logicalChunkSize) chunk.bytes.length)
      (fun _ => rfl) (fun _ => ⟨rfl, rfl⟩)
      ⟨hd.hash, hpath.trans hd.path, hexpected.trans hd.expectedHash, hsize.trans hd.expectedSize⟩
    set n₂ : Node H := { n₁ with
      downloads := VeritasSync.Node.updateFirst (ownsChunk chunk)
        (fun d => d.accept r.2 (chunk.offset / logicalChunkSize) chunk.bytes.length) n₁.downloads
      trace := { n₁.trace with
        accepted := ⟨chunk.transferId, chunk.offset / logicalChunkSize, chunk.bytes⟩ ::
          n₁.trace.accepted } }
    have hspares₂ : Spares d.entry n n₂ := hspares.with_downloads _ _
    refine Exec.wp_ite (fun _ => ?_) fun _ => wp_settleDownload haccepted hspares₂
    rw [Exec.wp_bind, Exec.wp_state, Exec.wp_bind]
    refine Exec.wp_mono (Exec.wp_within
      (spares_persistAcceptedChunks _ _ : Within (Spares d.entry) _)
      (Exec.wp_within (R := Same Node.downloads) (fun _ => rfl) (Exec.wp_of (I := fun _ => True)
        trivial))) (fun _ n₃ h₃ => ?_) fun _ n₃ h₃ => ?_
    · have hspares₃ := trans_of (Spares d.entry) hspares₂ h₃.1
      rw [Exec.wp_bind, Exec.wp_update]
      refine wp_settleDownload ((haccepted.of_eq h₃.2.1).updateFirst (fun _ => rfl)
        (fun _ => ⟨rfl, rfl⟩) ?_) (hspares₃.with_downloads _ _)
      have hsound₂ := haccepted.sound _ (List.mem_of_find?_eq_some haccepted.found)
      exact ⟨hsound₂.hash, hsound₂.path, hsound₂.expectedHash, hsound₂.expectedSize⟩
    · exact (haccepted.of_eq h₃.2.1).works (trans_of (Spares d.entry) hspares₂ h₃.1)
  · exact (htracks.of_eq h₁.2.1).works h₁.1

/-! ## Runs -/

/-- The invariant of a target. -/
structure Tracking (n : Node H) : Prop where
  role : n.config.role = .target
  pending : n.Pending
  settled : n.lastError = none → ∀ m, n.receivedManifest = some m → n.Settled m

/-- Members that the invariant does not mention have changed. -/
theorem Tracking.of_same {n n' : Node H} (h : n.Tracking) (hrecords : n'.db.records = n.db.records)
    (hfolder : n'.folder = n.folder)
    (hentries : n'.downloads.map Download.entry = n.downloads.map Download.entry)
    (hsound : ∀ d ∈ n'.downloads, d.Sound)
    (hrest : n'.config = n.config ∧ n'.lastError = n.lastError ∧
      n'.receivedManifest = n.receivedManifest) : n'.Tracking where
  role := hrest.1 ▸ h.role
  pending := by
    refine ⟨fun p r hr => h.pending.tidy p r (hrecords ▸ hr), ?_, fun d hd => ⟨hsound d hd, ?_⟩⟩
    · rw [hrest.2.2]
      exact h.pending.faithful
    · have hmem : d.entry ∈ n.downloads.map Download.entry := hentries ▸ List.mem_map_of_mem hd
      obtain ⟨d', hd', hentry⟩ := List.mem_map.mp hmem
      rw [hrest.2.2, ← hentry]
      exact (h.pending.downloads d' hd').2
  settled hnone m hm := by
    obtain ⟨hlive, hall⟩ := h.settled (hrest.2.1 ▸ hnone) m (hrest.2.2 ▸ hm)
    refine ⟨fun p r hr => hlive p r (hrecords ▸ hr), fun e he => ?_⟩
    rcases hall e he with hhas | ⟨d, hd, rfl⟩
    · exact .inl ⟨hrecords ▸ hhas.record, hfolder ▸ hhas.present⟩
    · have hmem : d.entry ∈ n'.downloads.map Download.entry := hentries ▸ List.mem_map_of_mem hd
      obtain ⟨d', hd', hentry⟩ := List.mem_map.mp hmem
      exact .inr ⟨d', hd', hentry⟩

/-- The manifests that are delivered list every file that is on its way, and nobody else changes the
folder. -/
def Steady (n : Node H) : Action H → Prop
  | .receive _ _ (.manifest m) => Accepted m → n.Follows m
  | .edit _ => False
  | _ => True

omit [ContentHash H] in
theorem sound_modify {l : List (Download H)} (h : ∀ d ∈ l, d.Sound) (index : Nat) :
    ∀ d ∈ l.modify index Download.persisted, d.Sound := by
  induction l generalizing index with
  | nil => cases index <;> exact nofun
  | cons x l ih =>
    have hx := h x List.mem_cons_self
    have hl : ∀ d ∈ l, d.Sound := fun d hd => h d (List.mem_cons_of_mem _ hd)
    intro d hd
    cases index with
    | zero =>
      rcases List.mem_cons.mp hd with rfl | hd
      · exact ⟨hx.hash, hx.path, hx.expectedHash, hx.expectedSize⟩
      · exact hl d hd
    | succ index =>
      rcases List.mem_cons.mp hd with rfl | hd
      · exact hx
      · exact ih hl index d hd

end Node

end OneWay

namespace OneWay

/-- The HELLO of the source of the sample target. -/
def sourceHello : Hello := ⟨ascii "t", .source, ascii "a", ascii "G", ascii "D"⟩

/-- The manifest of a folder with a file of one byte. -/
def byteManifest : Manifest Bytes := ⟨1, [⟨ascii "f", 1, .hash [7]⟩]⟩

/-- A sample target with an empty folder. -/
def Node.sampleTarget : Node Bytes := .sample .target (by decide) (.empty [])

/-- The source says HELLO and sends its manifest. -/
def announceByte : List (Node.Action Bytes) :=
  [.start sampleEnvironment, .receive sampleEnvironment .control (.hello sourceHello),
    .receive sampleEnvironment .control (.manifest byteManifest)]

end OneWay

end VeritasSync
