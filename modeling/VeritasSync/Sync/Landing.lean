import VeritasSync.Sync.Converged
import VeritasSync.Sync.Recorders

/-!
# How a remote file lands

A file that a manifest announces lands in one of three ways: it is empty and written at once, its
transfer is resumed and nothing is missing, or its last chunk arrives.  The record is stored by the
node and the bytes are checked, if they are, by `CommitPartial` several calls deeper.  What size and
hash the manifest gives is up to the sender.

The last two ways go through `CommitPartial`, and there the record tells the truth.  An empty file
is written without a look at its hash.

## What is here

* `Landed` — a live file record, and exactly when it tells the truth about the file at its path.
* `Node.wp_beginDownload`, `Node.wp_acceptChunk` and their one-way counterparts — what one call
  does, whether the file lands in it or not.
* `Node.Loading`, `OneWay.Node.Loading` — every receiver is set up for what its entry lists; this
  holds of every reachable node.
* `Node.LandsAtOnce`, `OneWay.Node.LandsAtOnce` — the calls of `BeginDownload` in which a file
  lands, of a node in the midst of a manifest too.
* `Node.LandsLast`, `OneWay.Node.LandsLast` — the calls of `AcceptChunk` in which one does.
* `landing_verified_iff` — of all that land, exactly the empty files with a wrong hash are
  recorded wrongly.
-/

set_option autoImplicit false

namespace VeritasSync

variable {H : Type} [ContentHash H]

/-! ## A record and its file

A record tells the truth if the file at its path has its size and its hash.  The statement is about
the moment at which the record is stored; afterwards the user may do with the file what he likes. -/

/-- The record has the size and the hash of the file at its path. -/
def Folder.Verifies (folder : Folder) (r : FileRecord H) : Prop :=
  ∃ content, folder.readFile r.relativePath = some content ∧ r.size = content.length ∧
    r.contentHash = some (blake3 content)

/-- A live record of a file is stored at `p`, with the size and the hash that were announced, and it
tells the truth unless the file was announced as empty with a hash that is not that of no bytes. -/
def Landed (folder : Folder) (db : Database H) (p : Path) (size : Nat) (hash : H) : Prop :=
  ∃ r, db.records.find p = some r ∧ r.relativePath = p ∧ r.kind = .file ∧ r.size = size ∧
    r.contentHash = some hash ∧ (folder.Verifies r ↔ (size = 0 → hash = blake3 []))

/-- A file landed if its size was seen to, and its hash unless it is empty. -/
theorem landed_of_content {folder : Folder} {db : Database H} {p : Path} {size : Nat} {hash : H}
    {r : FileRecord H} {content : Bytes} (hrecord : db.records.find p = some r)
    (hpath : r.relativePath = p) (hkind : r.kind = .file) (hsize : r.size = size)
    (hhash : r.contentHash = some hash) (hread : folder.readFile p = some content)
    (hlength : content.length = size) (hcontent : size ≠ 0 → blake3 content = hash) :
    Landed folder db p size hash := by
  refine ⟨r, hrecord, hpath, hkind, hsize, hhash, ?_⟩
  have hverifies : folder.Verifies r ↔ hash = blake3 content := by
    constructor
    · rintro ⟨content', hread', -, hhash'⟩
      rw [hpath, hread] at hread'
      cases hread'
      exact Option.some.inj (hhash.symm.trans hhash')
    · rintro rfl
      exact ⟨content, hpath ▸ hread, hsize.trans hlength.symm, hhash⟩
  rw [hverifies]
  by_cases hzero : size = 0
  · have hempty : content = [] := List.length_eq_zero_iff.mp (hlength.trans hzero)
    simp [hzero, hempty]
  · exact ⟨fun _ h => absurd h hzero, fun _ => (hcontent hzero).symm⟩

/-! ## The bidirectional node -/

namespace Node

open Exec

variable {n n' : Node H} {entry : VersionedManifestEntry H} {hash : H}

/-- A download of the content is under way. -/
def Fetching (n : Node H) (p : Path) (hash : H) : Prop :=
  ∃ d ∈ n.downloads, d.destinationPath = p ∧ d.hash = hash

/-- What only a landing or a new download changes. -/
def kept (n : Node H) : OrdMap Path (FileRecord H) × List (ActiveDownload H) :=
  (n.db.records, n.downloads)

theorem wp_commitReceiver (receiver : DownloadReceiver H) (n : Node H) :
    Wp (commitReceiver receiver)
      (fun _ n' => n'.kept = n.kept ∧ ∃ content,
        n'.folder.readFile receiver.relativePath = some content ∧
          content.length = receiver.expectedSize ∧ blake3 content = receiver.expectedHash)
      (fun _ n' => n'.kept = n.kept) n := by
  rw [commitReceiver, wp_bind]
  refine wp_check (fun _ _ => rfl) fun _ _ => ?_
  rw [wp_bind]
  refine wp_folderDo rfl (fun _ _ => rfl) fun folder hfolder => ?_
  obtain ⟨content, -, hsize, hhash, -, -, hfind⟩ := Folder.commitPartial_eq_ok hfolder
  rw [wp_bind, wp_state]
  refine wp_dbDo rfl (fun _ _ => rfl) fun db hdb => ?_
  obtain ⟨transfers, rfl⟩ := Database.updateTransferState_eq_ok hdb
  refine ⟨rfl, content, ?_, hsize, hhash⟩
  show folder.readFile _ = _
  rw [Folder.readFile, hfind, if_pos rfl]

omit [ContentHash H] in
/-- The record of a file entry. -/
theorem wp_upsertRemoteRecord (hkind : entry.kind = .file)
    (hhash : entry.contentHash = some hash) (n : Node H) :
    Wp (upsertRemoteRecord entry)
      (fun _ n' => n'.folder = n.folder ∧ n'.downloads = n.downloads ∧
        ∃ r, n'.db.records.find entry.relativePath = some r ∧
          r.relativePath = entry.relativePath ∧ r.kind = .file ∧ r.size = entry.size ∧
            r.contentHash = some hash)
      (fun _ n' => n'.kept = n.kept) n := by
  rw [upsertRemoteRecord, wp_bind, wp_state, wp_bind]
  refine wp_check (fun _ _ => rfl) fun record hrecord => ?_
  refine wp_dbDo rfl (fun _ _ => rfl) fun db hdb => ?_
  obtain ⟨-, rfl⟩ := Database.upsertFileRecord_eq_ok hdb
  obtain ⟨-, hpath, hrkind, hsize, -, -, -, hrhash, -⟩ := toRecord_eq_ok hrecord
  rw [if_pos hkind, hhash] at hrhash
  refine ⟨rfl, rfl, record, ?_, hpath, hrkind.trans hkind, hsize, hrhash⟩
  rw [← hpath]
  exact OrdMap.find_insert_self _ _ _

/-- The file is at its path, and the record follows. -/
theorem wp_landing (hkind : entry.kind = .file) (hhash : entry.contentHash = some hash)
    {content : Bytes} (hread : n.folder.readFile entry.relativePath = some content)
    (hlength : content.length = entry.size) (hcontent : entry.size ≠ 0 → blake3 content = hash) :
    Wp (upsertRemoteRecord entry)
      (fun _ n' => n'.downloads = n.downloads ∧
        Landed n'.folder n'.db entry.relativePath entry.size hash)
      (fun _ n' => n'.kept = n.kept) n := by
  refine wp_mono (wp_upsertRemoteRecord hkind hhash n) (fun _ n' h => ?_) fun _ _ h => h
  obtain ⟨hfolder, hdownloads, r, hfind, hpath, hrkind, hsize, hrhash⟩ := h
  exact ⟨hdownloads, landed_of_content hfind hpath hrkind hsize hrhash (hfolder ▸ hread) hlength
    hcontent⟩

theorem kept_openTransfer (p : Path) (hash : H) :
    Within (Same kept) (openTransfer (H := H) p hash) := by
  refine within_bind within_state fun n => within_bind (within_check _) fun active => ?_
  split
  · exact within_pure _
  · refine within_bind (fun _ => rfl) fun transferId => ?_
    refine within_bind (within_folderDo (fun _ => rfl) fun _ _ _ => rfl) fun _ => ?_
    refine within_bind (within_dbDo (fun _ => rfl) fun n db h => ?_) fun _ => within_pure _
    obtain ⟨-, rfl⟩ := Database.createTransfer_eq_ok h
    rfl

/-- What `BeginDownload` of a file for the formal path comes to: a download is under way and nothing
has been stored, or the file has landed. -/
def Began (p : Path) (size : Nat) (hash : H) (n n' : Node H) : Prop :=
  (n'.Fetching p hash ∧ n'.db.records = n.db.records) ∨
    (¬ n'.Fetching p hash ∧ Landed n'.folder n'.db p size hash)

theorem wp_beginTransfer (hkind : entry.kind = .file) (hhash : entry.contentHash = some hash)
    (hnone : ¬ n.Fetching entry.relativePath hash) (against : Option VersionId) :
    Wp (beginTransfer entry entry.relativePath true hash against)
      (fun _ n' => Began entry.relativePath entry.size hash n n')
      (fun _ n' => n'.kept = n.kept) n := by
  rw [beginTransfer, wp_bind]
  refine wp_mono (wp_within (kept_openTransfer _ _) (wp_of (I := fun _ => True) trivial))
    (fun transferId n₁ h => ?_) fun _ _ h => h.1
  obtain ⟨hkept, -⟩ := h
  rw [wp_bind]
  refine wp_check (fun _ _ => hkept) fun receiver hreceiver => ?_
  obtain ⟨-, rfl⟩ := DownloadReceiver.create_eq_ok hreceiver
  rw [wp_bind]
  refine wp_check (fun _ _ => hkept) fun request _ => wp_ite (fun _ => ?_) fun _ => ?_
  · rw [wp_bind]
    refine wp_mono (wp_commitReceiver _ n₁) (fun _ n₂ h => ?_) fun _ _ h => h.trans hkept
    obtain ⟨hkept₂, content, hread, hlength, hcontent⟩ := h
    refine wp_when (fun _ => ?_) fun h => absurd rfl h
    refine wp_mono (wp_landing hkind hhash hread hlength fun _ => hcontent) (fun _ n₃ h => ?_)
      fun _ _ h => h.trans (hkept₂.trans hkept)
    refine Or.inr ⟨?_, h.2⟩
    have hdownloads : n₃.downloads = n.downloads :=
      h.1.trans (congrArg Prod.snd (hkept₂.trans hkept))
    rwa [Fetching, hdownloads]
  · rw [wp_bind, wp_update, wp_send]
    exact Or.inl ⟨⟨_, List.mem_append_right _ List.mem_cons_self, rfl, rfl⟩,
      congrArg Prod.fst hkept⟩

/-- **`BeginDownload`**, for the formal path. -/
theorem wp_beginDownload (hkind : entry.kind = .file) (hhash : entry.contentHash = some hash)
    (against : Option VersionId) (n : Node H) :
    Wp (beginDownload entry entry.relativePath true against)
      (fun _ n' => Began entry.relativePath entry.size hash n n')
      (fun _ n' => n'.kept = n.kept) n := by
  rw [beginDownload, wp_bind]
  refine wp_check (fun _ _ => rfl) fun hash' hhash' => ?_
  obtain rfl : hash' = hash := Option.some.inj ((decodeHash_eq_ok hhash').symm.trans hhash)
  rw [wp_bind, wp_state]
  refine wp_ite (fun hany => ?_) fun hany => ?_
  · obtain ⟨d, hd, hmatch⟩ := List.any_eq_true.mp hany
    exact Or.inl ⟨⟨d, hd, of_decide_eq_true hmatch⟩, rfl⟩
  · have hnone : ¬ n.Fetching entry.relativePath hash' := by
      rintro ⟨d, hd, hmatch⟩
      exact hany (List.any_eq_true.mpr ⟨d, hd, decide_eq_true hmatch⟩)
    rw [wp_bind]
    refine wp_check (fun _ _ => rfl) fun _ _ => ?_
    rw [wp_bind]
    refine wp_mono (wp_within (R := Same kept) (within_when fun _ =>
      within_folderDo (fun _ => rfl) fun _ _ _ => rfl) (wp_of (I := fun _ => True) trivial))
      (fun _ n₁ h => ?_) fun _ _ h => h.1
    obtain ⟨hkept, -⟩ := h
    have hdownloads : n₁.downloads = n.downloads := congrArg Prod.snd hkept
    have hnone₁ : ¬ n₁.Fetching entry.relativePath hash' := by rwa [Fetching, hdownloads]
    refine wp_ite (fun hsize => ?_) fun _ => ?_
    · rw [wp_bind]
      refine wp_folderDo hkept (fun _ _ => hkept) fun folder hfolder => ?_
      refine wp_when (fun _ => ?_) fun h => absurd rfl h
      have hread : folder.readFile entry.relativePath = some [] := by
        rw [Folder.readFile, (Folder.writeAtomically_eq_ok hfolder).find, if_pos rfl]
      refine wp_mono (wp_landing (n := { n₁.spend with folder := folder }) hkind hhash hread
        hsize.symm fun h => absurd hsize h) (fun _ n₂ h => ?_) fun _ _ h => h.trans hkept
      refine Or.inr ⟨?_, h.2⟩
      have hdownloads₂ : n₂.downloads = n.downloads := h.1.trans hdownloads
      rwa [Fetching, hdownloads₂]
    · refine wp_mono (wp_beginTransfer hkind hhash hnone₁ against) (fun _ n₂ h => ?_)
        fun _ _ h => h.trans hkept
      exact h.imp (fun h => ⟨h.1, h.2.trans (congrArg Prod.fst hkept)⟩) id

/-! ### The last chunk -/

omit [ContentHash H] in
theorem length_updateFirst {γ : Type} (p : γ → Bool) (f : γ → γ) (l : List γ) :
    (updateFirst p f l).length = l.length := by
  induction l with
  | nil => rfl
  | cons x l ih =>
    rw [updateFirst]
    split
    · rfl
    · rw [List.length_cons, List.length_cons, ih]

omit [ContentHash H] in
theorem any_updateFirst {γ : Type} {p : γ → Bool} {f : γ → γ} (hf : ∀ x, p (f x) = p x)
    (l : List γ) : (updateFirst p f l).any p = l.any p := by
  induction l with
  | nil => rfl
  | cons x l ih =>
    rw [updateFirst]
    split
    · rw [List.any_cons, List.any_cons, hf]
    · rw [List.any_cons, List.any_cons, ih]

/-- What a chunk comes to for its download: it goes on and nothing has been stored, or it is gone,
and the file has landed if it is for the formal path. -/
def Arrived (d : ActiveDownload H) (n n' : Node H) : Prop :=
  (n'.downloads.length = n.downloads.length ∧ n'.db.records = n.db.records) ∨
    (n'.downloads.length + 1 = n.downloads.length ∧
      if d.applyFormalRecord then
        Landed n'.folder n'.db d.entry.relativePath d.entry.size d.hash
      else n'.db.records = n.db.records)

/-- Nothing has been stored and no download has begun or ended. -/
def counted (n : Node H) : OrdMap Path (FileRecord H) × Nat := (n.db.records, n.downloads.length)

omit [ContentHash H] in
theorem counted_eq (hrecords : n'.db.records = n.db.records)
    (hlength : n'.downloads.length = n.downloads.length) : n'.counted = n.counted :=
  Prod.ext hrecords hlength

omit [ContentHash H] in
theorem counted_of_kept (h : n'.kept = n.kept) : n'.counted = n.counted :=
  congrArg (fun k : OrdMap Path (FileRecord H) × List (ActiveDownload H) => (k.1, k.2.length)) h

theorem wp_settleDownload {chunk : Chunk H} {d : ActiveDownload H} (hd : IsFor d) {n₁ : Node H}
    (hcounted : n₁.counted = n.counted) (howner : n₁.downloads.any (ownsChunk chunk) = true) :
    Wp (settleDownload chunk d) (fun _ n' => Arrived d n n')
      (fun _ n' => n'.counted = n.counted) n₁ := by
  refine wp_when (fun _ => ?_) fun _ =>
    Or.inl ⟨congrArg Prod.snd hcounted, congrArg Prod.fst hcounted⟩
  have hgone : ∀ n₂ : Node H, n₂.downloads = n₁.downloads →
      (n₂.downloads.eraseP (ownsChunk chunk)).length + 1 = n.downloads.length := by
    intro n₂ h
    have hpos : 0 < n₁.downloads.length := by
      cases hl : n₁.downloads with
      | nil => simp [hl] at howner
      | cons x l => simp
    have hlength : n₁.downloads.length = n.downloads.length := congrArg Prod.snd hcounted
    rw [h, List.length_eraseP, if_pos howner]
    omega
  rw [wp_bind, commitDownload, wp_bind]
  refine wp_mono (wp_commitReceiver _ n₁) (fun _ n₂ h => ?_) fun _ _ h =>
    (counted_of_kept h).trans hcounted
  obtain ⟨hkept, content, hread, hlength, hcontent⟩ := h
  rw [hd.path] at hread
  have hdownloads : n₂.downloads = n₁.downloads := congrArg Prod.snd hkept
  have hrecords : n₂.db.records = n.db.records :=
    (congrArg Prod.fst hkept).trans (congrArg Prod.fst hcounted)
  refine wp_when (fun hformal => ?_) fun hformal => ?_
  · rw [hd.formal hformal] at hread
    refine wp_mono (wp_landing hd.kind hd.contentHash hread (hlength.trans hd.size)
      fun _ => hcontent.trans hd.hash) (fun _ n₃ h => ?_)
      fun _ _ h => (counted_of_kept (h.trans hkept)).trans hcounted
    rw [wp_update]
    refine Or.inr ⟨hgone n₃ (h.1.trans hdownloads), ?_⟩
    rw [if_pos hformal]
    exact h.2
  · rw [wp_update]
    refine Or.inr ⟨hgone n₂ hdownloads, ?_⟩
    rw [if_neg hformal]
    exact hrecords

/-- A chunk for a download that is for what its entry lists. -/
theorem wp_acceptInto {chunk : Chunk H} {d : ActiveDownload H} (hd : IsFor d)
    (howner : n.downloads.any (ownsChunk chunk) = true) :
    Wp (acceptInto chunk d) (fun _ n' => Arrived d n n')
      (fun _ n' => n'.counted = n.counted) n := by
  have hsame : ∀ d' : ActiveDownload H, SameGoal d d' → ∀ n' : Node H, Arrived d' n n' →
      Arrived d n n' := by
    intro d' hgoal n' h
    rw [Arrived, hgoal.applyFormalRecord, hgoal.entry, hgoal.hash] at h
    exact h
  rw [acceptInto, wp_bind]
  refine wp_check (fun _ _ => rfl) fun _ _ => wp_ite (fun _ => Or.inl ⟨rfl, rfl⟩) fun _ => ?_
  rw [wp_bind]
  refine wp_folderDo rfl (fun _ _ => rfl) fun folder _ => ?_
  rw [wp_bind, wp_update]
  have haccept : IsFor (d.accept (chunk.offset / logicalChunkSize) chunk.bytes.length) :=
    hd.of_sameGoal ⟨rfl, rfl, rfl, rfl, rfl, rfl, rfl⟩
  have hpersisted : IsFor
      (d.accept (chunk.offset / logicalChunkSize) chunk.bytes.length).persisted :=
    haccept.of_sameGoal ⟨rfl, rfl, rfl, rfl, rfl, rfl, rfl⟩
  have hany : ∀ f : ActiveDownload H → ActiveDownload H,
      (∀ x, ownsChunk chunk (f x) = ownsChunk chunk x) → ∀ l : List (ActiveDownload H),
        l.any (ownsChunk chunk) = true →
          (updateFirst (ownsChunk chunk) f l).any (ownsChunk chunk) = true :=
    fun f hf l hl => (any_updateFirst hf l).trans hl
  -- enough chunks are written down at once; fewer wait for the next ones
  refine wp_ite (fun _ => ?_) fun _ => ?_
  · rw [wp_bind, persistAcceptedChunks, wp_bind]
    have hcounted : ∀ n' : Node H, n'.db.records = n.db.records →
        n'.downloads = updateFirst (ownsChunk chunk)
          (fun d => d.accept (chunk.offset / logicalChunkSize) chunk.bytes.length) n.downloads →
        n'.counted = n.counted := fun n' hr hl =>
      counted_eq hr ((congrArg List.length hl).trans (length_updateFirst _ _ _))
    refine wp_check (fun _ _ => hcounted _ rfl rfl) fun _ _ => ?_
    rw [wp_bind, wp_state]
    refine wp_dbDo (hcounted _ rfl rfl) (fun _ _ => hcounted _ rfl rfl) fun db hdb => ?_
    obtain ⟨transfers, rfl⟩ := Database.markTransferChunksCompleted_eq_ok hdb
    rw [wp_bind, wp_update]
    refine wp_mono (wp_settleDownload hpersisted ?_ ?_)
      (fun _ n' h => hsame _ ⟨rfl, rfl, rfl, rfl, rfl, rfl, rfl⟩ n' h) fun _ _ h => h
    · exact counted_eq rfl ((length_updateFirst _ _ _).trans (length_updateFirst _ _ _))
    · exact hany .persisted (fun _ => rfl) _ (hany (fun d => d.accept _ _) (fun _ => rfl) _ howner)
  · refine wp_mono (wp_settleDownload haccept ?_ ?_)
      (fun _ n' h => hsame _ ⟨rfl, rfl, rfl, rfl, rfl, rfl, rfl⟩ n' h) fun _ _ h => h
    · exact counted_eq rfl (length_updateFirst _ _ _)
    · exact hany (fun d => d.accept _ _) (fun _ => rfl) _ howner

/-! ### Reachable nodes -/

/-- Every download of the node is for what its entry lists. -/
def Loading (n : Node H) : Prop := ∀ d ∈ n.downloads, IsFor d

omit [ContentHash H] in
theorem manifestMoves_loading : ManifestMoves (Keeps (Loading (H := H))) where
  spend _ h := h
  uuid _ h := h
  transferId _ h := h
  conflict _ _ h := h
  transfers _ _ h := h
  tree _ _ _ h := h
  sources _ _ h := h
  uploads _ _ h := h
  downloads _ _ hl h d hd := by
    obtain ⟨d', hd', hgoal⟩ := hl d hd
    exact (h d' hd').of_sameGoal hgoal
  preserved _ _ h := h
  send _ _ _ h := h
  entry _ :=
    { spend := fun _ h => h
      uuid := fun _ h => h
      transferId := fun _ h => h
      conflict := fun _ _ h => h
      transfers := fun _ _ h => h
      tree := fun _ _ _ h => h
      sources := fun _ _ h => h
      uploads := fun _ _ h => h
      downloads := fun _ _ hl h d hd => by
        obtain ⟨d', hd', hgoal⟩ := hl d hd
        exact (h d' hd').of_sameGoal hgoal
      preserved := fun _ _ h => h
      send := fun _ _ _ h => h
      upsert := fun _ _ _ _ h => h
      begin := fun _ d _ hfor h d' hd' => by
        rcases List.mem_append.mp hd' with hd' | hd'
        · exact h d' hd'
        · exact List.mem_singleton.mp hd' ▸ hfor }
  row _ _ _ h hn := by
    obtain ⟨-, -, -, lineage, rfl, -⟩ := Database.recordVersionLineage_eq_ok h
    exact hn
  clock _ _ _ _ h hn := by
    obtain ⟨-, -, rfl⟩ := advanceLogicalClock_le h
    exact hn
  observed _ _ h := h
  received _ h := h
  applied _ _ h := h

omit [ContentHash H] in
theorem Loading.of_downloads (h : n.Loading) (hsame : n'.downloads = n.downloads) : n'.Loading :=
  fun d hd => h d (hsame ▸ hd)

theorem downloads_scanTask (deviceId : DeviceId) :
    Within (Same downloads) (scanTask (H := H) deviceId) := by
  refine within_bind within_state fun _ => within_bind (within_check _) fun _ =>
    within_bind (within_check _) fun _ => within_bind ?_ fun _ => within_update fun _ => rfl
  exact within_dbGet (fun _ => rfl) fun _ _ _ _ => rfl

theorem loading_perform (h : n.Loading) (e : Event H) : (n.perform e).Loading := by
  have hcontrol : ∀ n n' : Node H, ControlMove n n' → Keeps Loading n n' :=
    fun _ _ hmove h => h.of_downloads (congrArg DataView.downloads hmove.data)
  have hlocal : ∀ n n' : Node H, LocalMove n n' → Keeps Loading n n' :=
    fun _ _ hmove h => h.of_downloads (congrArg ScanView.downloads hmove.view)
  cases e with
  | call env c =>
    exact within_call hcontrol hlocal manifestMoves_loading.toTransferMoves (fun _ _ h => h)
      (fun _ _ h => h) { n with env := env } c h
  | receive env channel frame =>
    exact within_receive_of_moves hcontrol hlocal manifestMoves_loading (fun _ _ h => h) channel
      frame { n with env := env } h
  | restart => exact nofun

/-- **The downloads of a reachable node are what they say.**  By induction over the events of the
node, restarts included. -/
theorem loading_of_reached (h : Reached n) : n.Loading := by
  induction h with
  | create config env uuid transferId folder => exact nofun
  | perform _ e ih => exact loading_perform ih e
  | @scanTask m _ env deviceId ih =>
    exact Loading.of_downloads (n := { m with env := env }) ih (downloads_scanTask deviceId _)
  | taken _ ih => exact ih

/-- A file lands at once: `BeginDownload` for the formal path returns and there is nothing to wait
for. -/
inductive LandsAtOnce (n : Node H) : Path → Nat → H → Node H → Prop where
  | began {entry : VersionedManifestEntry H} {hash : H} {against : Option VersionId} {n' : Node H}
      (hkind : entry.kind = .file) (hhash : entry.contentHash = some hash)
      (hrun : beginDownload entry entry.relativePath true against n = (.ok (), n'))
      (hdone : ¬ n'.Fetching entry.relativePath hash) :
      LandsAtOnce n entry.relativePath entry.size hash n'

/-- A file lands with a chunk: `AcceptChunk` returns and a download for the formal path is over. -/
inductive LandsLast (n : Node H) : Path → Nat → H → Node H → Prop where
  | arrived {chunk : Chunk H} {d : ActiveDownload H} {n' : Node H}
      (hfind : n.downloads.find? (ownsChunk chunk) = some d) (hformal : d.applyFormalRecord = true)
      (hrun : acceptChunk chunk n = (.ok (), n'))
      (hdone : n'.downloads.length < n.downloads.length) :
      LandsLast n d.entry.relativePath d.entry.size d.hash n'

theorem wp_acceptChunk {chunk : Chunk H} {d : ActiveDownload H} (h : n.Loading)
    (hfind : n.downloads.find? (ownsChunk chunk) = some d) :
    Wp (acceptChunk chunk) (fun _ n' => Arrived d n n') (fun _ n' => n'.counted = n.counted) n := by
  rw [acceptChunk, wp_bind, wp_state, hfind]
  exact wp_acceptInto (h d (List.mem_of_find?_eq_some hfind))
    (List.any_eq_true.mpr ⟨d, List.mem_of_find?_eq_some hfind, List.find?_some hfind⟩)

/-- What lands at once has a record, whatever node it lands in. -/
theorem LandsAtOnce.landed {p : Path} {size : Nat} {hash : H} (h : n.LandsAtOnce p size hash n') :
    Landed n'.folder n'.db p size hash := by
  obtain ⟨hkind, hhash, hrun, hdone⟩ := h
  have hbegan := of_wp_run (wp_beginDownload hkind hhash _ n) hrun
  exact hbegan.elim (fun h => absurd h.1 hdone) And.right

/-- What lands with its last chunk has a record. -/
theorem LandsLast.landed {p : Path} {size : Nat} {hash : H} (hn : n.Loading)
    (h : n.LandsLast p size hash n') : Landed n'.folder n'.db p size hash := by
  obtain ⟨hfind, hformal, hrun, hdone⟩ := h
  rcases of_wp_run (wp_acceptChunk hn hfind) hrun with ⟨hsame, -⟩ | ⟨-, hlanded⟩
  · omega
  · rwa [if_pos hformal] at hlanded

end Node

/-! ## The one-way node -/

namespace OneWay.Node

open Exec (Within Same Wp)

variable {n n' : Node H} {entry : ManifestEntry H} {hash : H}

/-- A download of the content is under way. -/
def Fetching (n : Node H) (p : Path) (hash : H) : Prop :=
  ∃ d ∈ n.downloads, d.entry.relativePath = p ∧ d.hash = hash

/-- What only a landing or a new download changes. -/
def kept (n : Node H) : OrdMap Path (FileRecord H) × List (Download H) :=
  (n.db.records, n.downloads)

omit [ContentHash H] in
/-- A receiver has no part in the downloads of the node. -/
theorem kept_onStore {α : Type} {m : Exec (Store H) Error α}
    (h : Within (Same fun s : Store H => s.db.records) m) :
    Within (Same (kept (H := H))) (onStore m) := fun n =>
  Prod.ext (h n.store) rfl

theorem kept_commit (receiver : DownloadReceiver H) (now : Int) :
    Within (Same (kept (H := H))) (onStore (receiver.commit now)) := by
  refine kept_onStore (Exec.within_bind (Exec.within_check _) fun _ => Exec.within_bind ?_
    fun _ => ?_)
  · refine Exec.within_atomic fun s _ s' h => ?_
    obtain ⟨folder, -, h⟩ := ok_of_map h
    cases h
    rfl
  · refine Exec.within_atomic fun s _ s' h => ?_
    obtain ⟨db, hdb, h⟩ := ok_of_map h
    cases h
    obtain ⟨transfers, rfl⟩ := Database.updateTransferState_eq_ok hdb
    rfl

theorem kept_openTransfer (p : Path) (hash : H) :
    Within (Same (kept (H := H))) (openTransfer p hash) := by
  refine Exec.within_bind Exec.within_state fun n => Exec.within_bind (Exec.within_check _)
    fun active => ?_
  split
  · exact Exec.within_pure _
  · refine Exec.within_bind (fun _ => rfl) fun transferId => Exec.within_bind ?_ fun _ =>
      Exec.within_bind ?_ fun _ => Exec.within_pure _
    · refine Exec.within_atomic fun n _ n' h => ?_
      obtain ⟨folder, -, h⟩ := ok_of_map h
      cases h
      rfl
    · refine Exec.within_atomic fun n _ n' h => ?_
      obtain ⟨db, hdb, h⟩ := ok_of_map h
      cases h
      obtain ⟨-, rfl⟩ := Database.createTransfer_eq_ok hdb
      rfl

/-- The file is at its path, and the record follows. -/
theorem wp_landing {p : Path} {size : Nat} {content : Bytes}
    (hread : n.folder.readFile p = some content) (hlength : content.length = size)
    (hcontent : size ≠ 0 → blake3 content = hash) :
    Wp (upsertRecord p .file size (some hash))
      (fun _ n' => n'.downloads = n.downloads ∧ Landed n'.folder n'.db p size hash)
      (fun _ n' => n'.kept = n.kept) n := by
  rw [upsertRecord, Exec.wp_bind, wp_newUuidV4, Exec.wp_bind, Exec.wp_state]
  refine Exec.wp_atomic (fun _ _ => rfl) fun _ n' h => ?_
  obtain ⟨db, hdb, h⟩ := ok_of_map h
  cases h
  obtain ⟨-, rfl⟩ := Database.upsertFileRecord_eq_ok hdb
  exact ⟨rfl, landed_of_content (OrdMap.find_insert_self _ _ _) rfl rfl rfl rfl hread hlength
    hcontent⟩

/-- A commit that returns, and then the record. -/
theorem wp_commit_landing {receiver : DownloadReceiver H} {p : Path} {size : Nat}
    (hpath : receiver.relativePath = p) (hsize : receiver.expectedSize = size)
    (hhash : receiver.expectedHash = hash) (now : Int) :
    Wp (onStore (receiver.commit now) >>= fun _ => upsertRecord p .file size (some hash))
      (fun _ n' => n'.downloads = n.downloads ∧ Landed n'.folder n'.db p size hash)
      (fun _ n' => n'.kept = n.kept) n := by
  rw [Exec.wp_bind]
  refine Exec.wp_mono (Exec.wp_within (kept_commit receiver now)
    (@wp_commit _ _ ⟨p, size, .hash hash⟩ _ hpath now n)) (fun _ n₁ h => ?_) fun _ _ h => h.1
  obtain ⟨hkept, content, hfind, hlength, hcontent⟩ := h
  have hread : n₁.folder.readFile p = some content := by
    rw [Folder.readFile, hfind]
  refine Exec.wp_mono (wp_landing hread (hlength.trans hsize) fun _ => hcontent.trans hhash)
    (fun _ n₂ h => ⟨h.1.trans (congrArg Prod.snd hkept), h.2⟩) fun _ _ h => h.trans hkept

/-- What `BeginDownload` comes to. -/
def Began (p : Path) (size : Nat) (hash : H) (n n' : Node H) : Prop :=
  (size ≠ 0 ∧ n'.Fetching p hash ∧ n'.db.records = n.db.records) ∨
    ((size = 0 ∨ ¬ n'.Fetching p hash) ∧ Landed n'.folder n'.db p size hash)

theorem wp_beginTransfer_lands (hsize : entry.size ≠ 0)
    (hnone : ¬ n.Fetching entry.relativePath hash) :
    Wp (beginTransfer entry hash) (fun _ n' => Began entry.relativePath entry.size hash n n')
      (fun _ n' => n'.db.records = n.db.records) n := by
  rw [beginTransfer, Exec.wp_bind]
  refine Exec.wp_mono (Exec.wp_within (kept_openTransfer _ _)
    (Exec.wp_of (I := fun _ => True) trivial)) (fun transferId n₁ h => ?_)
    fun _ _ h => congrArg Prod.fst h.1
  obtain ⟨hkept, -⟩ := h
  have hrecords : n₁.db.records = n.db.records := congrArg Prod.fst hkept
  rw [Exec.wp_bind]
  refine Exec.wp_check (fun _ _ => hrecords) fun receiver hreceiver => ?_
  obtain ⟨-, rfl⟩ := DownloadReceiver.create_eq_ok hreceiver
  rw [Exec.wp_bind]
  refine Exec.wp_check (fun _ _ => hrecords) fun request _ => Exec.wp_ite (fun _ => ?_) fun _ => ?_
  · rw [Exec.wp_bind, Exec.wp_state]
    refine Exec.wp_mono (wp_commit_landing rfl rfl rfl _) (fun _ n₂ h => Or.inr ⟨.inr ?_, h.2⟩)
      fun _ _ h => congrArg Prod.fst (h.trans hkept)
    rwa [Fetching, h.1.trans (congrArg Prod.snd hkept)]
  · rw [Exec.wp_bind, Exec.wp_update, Exec.wp_bind]
    refine Exec.wp_check (fun _ _ => hrecords) fun _ _ => ?_
    rw [send, Exec.wp_update]
    exact Or.inl ⟨hsize, ⟨_, List.mem_append_right _ List.mem_cons_self, rfl, rfl⟩, hrecords⟩

/-- **`BeginDownload`.** -/
theorem wp_beginDownload (hhash : entry.contentHash = .hash hash) (n : Node H) :
    Wp (beginDownload entry) (fun _ n' => Began entry.relativePath entry.size hash n n')
      (fun _ n' => n'.db.records = n.db.records) n := by
  have hdecode : ∀ {hash' : H}, entry.decodeHash = .ok hash' → hash' = hash := by
    intro hash' h
    exact HashText.hash.inj ((decodeHash_eq_ok h).symm.trans hhash)
  rw [beginDownload]
  refine Exec.wp_ite (fun hsize => ?_) fun hsize => ?_
  · rw [Exec.wp_bind]
    refine Exec.wp_atomic (fun _ _ => rfl) fun _ n₁ h => ?_
    obtain ⟨folder, hfolder, h⟩ := ok_of_map h
    cases h
    rw [Exec.wp_bind]
    refine Exec.wp_check (fun _ _ => rfl) fun hash' hhash' => ?_
    obtain rfl := hdecode hhash'
    have hread : folder.readFile entry.relativePath = some [] := by
      rw [Folder.readFile, (Folder.writeAtomically_eq_ok hfolder).find, if_pos rfl]
    rw [hsize]
    exact Exec.wp_mono (wp_landing (n := { n with folder := folder }) hread rfl
      fun h => absurd rfl h) (fun _ n₂ h => Or.inr ⟨.inl rfl, h.2⟩)
      fun _ _ h => congrArg Prod.fst h
  · rw [Exec.wp_bind]
    refine Exec.wp_check (fun _ _ => rfl) fun hash' hhash' => ?_
    obtain rfl := hdecode hhash'
    rw [Exec.wp_bind, Exec.wp_state]
    refine Exec.wp_ite (fun hany => ?_) fun hany => ?_
    · obtain ⟨d, hd, hmatch⟩ := List.any_eq_true.mp hany
      exact Or.inl ⟨hsize, ⟨d, hd, of_decide_eq_true hmatch⟩, rfl⟩
    · refine wp_beginTransfer_lands hsize fun h => hany ?_
      obtain ⟨d, hd, hmatch⟩ := h
      exact List.any_eq_true.mpr ⟨d, hd, decide_eq_true hmatch⟩

/-- What a chunk comes to for its download: it goes on and nothing has been stored, or it is gone
and the file has landed. -/
def Arrived (d : Download H) (n n' : Node H) : Prop :=
  (n'.downloads.length = n.downloads.length ∧ n'.db.records = n.db.records) ∨
    (n'.downloads.length + 1 = n.downloads.length ∧
      Landed n'.folder n'.db d.entry.relativePath d.entry.size d.hash)

/-- Nothing has been stored and no download has begun or ended. -/
def counted (n : Node H) : OrdMap Path (FileRecord H) × Nat := (n.db.records, n.downloads.length)

omit [ContentHash H] in
theorem counted_eq (hrecords : n'.db.records = n.db.records)
    (hlength : n'.downloads.length = n.downloads.length) : n'.counted = n.counted :=
  Prod.ext hrecords hlength

omit [ContentHash H] in
theorem counted_of_kept (h : n'.kept = n.kept) : n'.counted = n.counted :=
  counted_eq (congrArg Prod.fst h) (congrArg (List.length ∘ Prod.snd) h)

/-- Nothing has come of the chunk yet. -/
structure Attends (chunk : Chunk H) (n n₁ : Node H) : Prop where
  counted : n₁.counted = n.counted
  owner : n₁.downloads.any (ownsChunk chunk) = true

theorem Attends.of_kept {chunk : Chunk H} {n₁ n₂ : Node H} (h : Attends chunk n n₁)
    (hkept : n₂.kept = n₁.kept) : Attends chunk n n₂ where
  counted := (counted_of_kept hkept).trans h.counted
  owner := by
    have hdownloads : n₂.downloads = n₁.downloads := congrArg Prod.snd hkept
    rw [hdownloads]
    exact h.owner

theorem Attends.updateFirst {chunk : Chunk H} {n₁ n₂ : Node H} (h : Attends chunk n n₁)
    {f : Download H → Download H} (hf : ∀ d, ownsChunk chunk (f d) = ownsChunk chunk d)
    (hrecords : n₂.db.records = n₁.db.records)
    (hdownloads : n₂.downloads = VeritasSync.Node.updateFirst (ownsChunk chunk) f n₁.downloads) :
    Attends chunk n n₂ where
  counted := (counted_eq hrecords ((congrArg List.length hdownloads).trans
    (VeritasSync.Node.length_updateFirst _ _ _))).trans h.counted
  owner := by
    rw [hdownloads, VeritasSync.Node.any_updateFirst hf]
    exact h.owner

theorem wp_settleDownload_lands {chunk : Chunk H} {d : Download H} (hd : d.Sound) {n₁ : Node H}
    (h : Attends chunk n n₁) :
    Wp (settleDownload chunk d) (fun _ n' => Arrived d n n')
      (fun _ n' => n'.counted = n.counted) n₁ := by
  have hlength : n₁.downloads.length = n.downloads.length := congrArg Prod.snd h.counted
  refine Exec.wp_when (fun _ => ?_) fun _ => Or.inl ⟨hlength, congrArg Prod.fst h.counted⟩
  rw [Exec.wp_bind, commitDownload, Exec.wp_bind, Exec.wp_state]
  refine Exec.wp_mono (wp_commit_landing hd.path hd.expectedSize hd.expectedHash _)
    (fun _ n₂ hlanding => ?_) fun _ _ hkept => (counted_of_kept hkept).trans h.counted
  rw [Exec.wp_update]
  refine Or.inr ⟨?_, hlanding.2⟩
  have hpos : 0 < n₁.downloads.length := by
    obtain ⟨x, hx, -⟩ := List.any_eq_true.mp h.owner
    exact List.length_pos_of_mem hx
  show (n₂.downloads.eraseP (ownsChunk chunk)).length + 1 = n.downloads.length
  rw [hlanding.1, List.length_eraseP, if_pos h.owner]
  omega

theorem kept_acceptChunk (receiver : DownloadReceiver H) (index offset : Nat) (bytes : Bytes)
    (chunkHash : H) :
    Within (Same (kept (H := H))) (onStore (receiver.acceptChunk index offset bytes
      chunkHash)) := by
  refine kept_onStore (Exec.within_bind (Exec.within_check _) fun _ => ?_)
  refine Exec.within_ite (fun _ => Exec.within_pure _) fun _ => ?_
  refine Exec.within_bind (Exec.within_atomic fun s _ s' h => ?_) fun _ => Exec.within_pure _
  obtain ⟨folder, -, h⟩ := ok_of_map h
  cases h
  rfl

omit [ContentHash H] in
theorem kept_persistAcceptedChunks (receiver : DownloadReceiver H) (indices : List Nat)
    (now : Int) :
    Within (Same (kept (H := H))) (onStore (receiver.persistAcceptedChunks indices now)) := by
  refine kept_onStore (Exec.within_bind (Exec.within_check _) fun _ => ?_)
  refine Exec.within_atomic fun s _ s' h => ?_
  obtain ⟨db, hdb, h⟩ := ok_of_map h
  cases h
  obtain ⟨transfers, rfl⟩ := Database.markTransferChunksCompleted_eq_ok hdb
  rfl

/-- A chunk for a download that is for what its entry lists. -/
theorem wp_acceptInto_lands {chunk : Chunk H} {d : Download H} (hd : d.Sound)
    (howner : n.downloads.any (ownsChunk chunk) = true) :
    Wp (acceptInto chunk d) (fun _ n' => Arrived d n n')
      (fun _ n' => n'.counted = n.counted) n := by
  have hattends : Attends chunk n n := ⟨rfl, howner⟩
  rw [acceptInto]
  simp only
  rw [Exec.wp_bind]
  refine Exec.wp_mono (Exec.wp_within (kept_acceptChunk d.receiver _ _ _ _)
    (wp_acceptChunk d.receiver _ _ _ _ n)) (fun r n₁ h => ?_) fun _ _ h => counted_of_kept h.1
  obtain ⟨hkept, hpath, hexpected, hsize⟩ := h
  have h₁ := hattends.of_kept hkept
  refine Exec.wp_ite (fun _ => Or.inl ⟨congrArg Prod.snd h₁.counted, congrArg Prod.fst h₁.counted⟩)
    fun _ => ?_
  rw [Exec.wp_bind, Exec.wp_update]
  have haccept : (d.accept r.2 (chunk.offset / logicalChunkSize) chunk.bytes.length).Sound :=
    ⟨hd.hash, hpath.trans hd.path, hexpected.trans hd.expectedHash, hsize.trans hd.expectedSize⟩
  set n₂ : Node H := { n₁ with
    downloads := VeritasSync.Node.updateFirst (ownsChunk chunk)
      (fun d => d.accept r.2 (chunk.offset / logicalChunkSize) chunk.bytes.length) n₁.downloads
    trace := { n₁.trace with
      accepted := ⟨chunk.transferId, chunk.offset / logicalChunkSize, chunk.bytes⟩ ::
        n₁.trace.accepted } }
  have h₂ : Attends chunk n n₂ := h₁.updateFirst (f := fun d => d.accept r.2 _ _) (fun _ => rfl)
    rfl rfl
  refine Exec.wp_ite (fun _ => ?_) fun _ => wp_settleDownload_lands haccept h₂
  rw [Exec.wp_bind, Exec.wp_state, Exec.wp_bind]
  refine Exec.wp_mono (Exec.wp_within (kept_persistAcceptedChunks _ _ _)
    (Exec.wp_of (I := fun _ => True) trivial)) (fun _ n₃ h₃ => ?_) fun _ n₃ h₃ => ?_
  · rw [Exec.wp_bind, Exec.wp_update]
    exact wp_settleDownload_lands (d := (d.accept _ _ _).persisted)
      ⟨haccept.hash, haccept.path, haccept.expectedHash, haccept.expectedSize⟩
      ((h₂.of_kept h₃.1).updateFirst (f := Download.persisted) (fun _ => rfl) rfl rfl)
  · exact (h₂.of_kept h₃.1).counted

/-! ### Reachable nodes -/

/-- Every download of the node is for what its entry lists. -/
def Loading (n : Node H) : Prop := ∀ d ∈ n.downloads, d.Sound

omit [ContentHash H] in
theorem Loading.of_downloads (h : n.Loading) (hsame : n'.downloads = n.downloads) : n'.Loading :=
  fun d hd => h d (hsame ▸ hd)

omit [ContentHash H] in
theorem loading_same {α : Type} {m : NodeM H α} (h : Within (Same downloads) m) :
    Within (Exec.Keeps Loading) m := fun n hn => hn.of_downloads (h n)

omit [ContentHash H] in
theorem downloads_folderDo (f : Folder → Except Error Folder) :
    Within (Same (downloads (H := H))) (folderDo f) := by
  refine Exec.within_atomic fun n _ n' h => ?_
  obtain ⟨folder, -, h⟩ := ok_of_map h
  cases h
  rfl

omit [ContentHash H] in
theorem downloads_dbDo (f : Database H → Except Error (Database H)) :
    Within (Same (downloads (H := H))) (dbDo f) := by
  refine Exec.within_atomic fun n _ n' h => ?_
  obtain ⟨db, -, h⟩ := ok_of_map h
  cases h
  rfl

omit [ContentHash H] in
theorem downloads_sendManifest : Within (Same downloads) (sendManifest (H := H)) :=
  Exec.within_bind Exec.within_state fun _ => Exec.within_bind (Exec.within_check _) fun _ _ => rfl

theorem downloads_refreshSource : Within (Same downloads) (refreshSource (H := H)) := by
  refine Exec.within_bind Exec.within_state fun n => Exec.within_ite (fun _ => Exec.within_raise _)
    fun _ => Exec.within_bind (Exec.within_check _) fun snapshot => Exec.within_bind ?_ fun _ =>
      Exec.within_bind (fun _ => rfl) fun _ => Exec.within_ite (fun _ => Exec.within_raise _)
        fun _ => Exec.within_bind (fun _ => rfl) fun _ =>
          Exec.within_when fun _ => downloads_sendManifest
  refine Exec.within_atomic fun n _ n' h => ?_
  obtain ⟨r, -, h⟩ := ok_of_map h
  cases h
  rfl

theorem downloads_start : Within (Same downloads) (start (H := H)) := by
  refine Exec.within_bind Exec.within_state fun n => Exec.within_ite (fun _ => Exec.within_pure _)
    fun _ => Exec.within_bind (fun _ => rfl) fun _ => Exec.within_bind
      (Exec.within_when fun _ => downloads_refreshSource) fun _ _ => rfl

theorem downloads_pumpUploads (done rest : List (PendingUpload H)) :
    Within (Same downloads) (pumpUploads done rest) := by
  induction rest generalizing done with
  | nil => exact fun _ => rfl
  | cons upload rest ih =>
    rw [pumpUploads]
    refine Exec.within_bind Exec.within_state fun n => ?_
    split
    · exact Exec.within_bind (fun _ => rfl) fun _ => Exec.within_raise _
    · refine Exec.within_bind ?_ fun _ => Exec.within_ite (fun _ => ih _) fun _ => ih _
      rename_i next _ _
      cases next with
      | none => exact Exec.within_pure _
      | some chunk => exact fun _ => rfl

omit [ContentHash H] in
theorem downloads_deleteFilesAbsentFrom (m : Manifest H) :
    Within (Same downloads) (deleteFilesAbsentFrom m) := by
  refine Exec.within_bind Exec.within_state fun _ => Exec.within_forM fun record _ =>
    Exec.within_when fun _ => ?_
  have htombstone : Within (Same (downloads (H := H))) (do
      let version ← newUuidV4
      let n ← Exec.state
      dbDo fun db => db.recordTombstone n.config.taskId record.relativePath version
        n.config.peerDeviceId 0 n.nowMs) :=
    Exec.within_bind (fun _ => rfl) fun _ => Exec.within_bind Exec.within_state fun _ =>
      downloads_dbDo _
  rw [deleteRecord]
  cases record.kind with
  | file => exact Exec.within_bind (downloads_folderDo _) fun _ => htombstone
  | directory => exact Exec.within_bind (downloads_folderDo _) fun _ => htombstone
  | tombstone => exact htombstone

theorem loading_applyManifest (m : Manifest H) :
    Within (Exec.Keeps Loading) (applyManifest m) := by
  refine Exec.within_bind (Exec.within_check _) fun _ => Exec.within_ite
    (fun _ => Exec.within_raise _) fun _ => Exec.within_bind (fun _ h => h) fun _ =>
      Exec.within_bind (loading_same (downloads_deleteFilesAbsentFrom m)) fun _ =>
        Exec.within_forM fun e _ n h d hd => ?_
  rcases (moves_applyEntry n).started d hd with hd | ⟨-, hd⟩
  · exact h d hd
  · exact hd

theorem loading_acceptChunk (chunk : Chunk H) :
    Within (Exec.Keeps Loading) (acceptChunk chunk) := by
  refine Exec.keeps_of_wp fun n h => ?_
  rw [acceptChunk, Exec.wp_bind, Exec.wp_state]
  cases hfind : n.downloads.find? (ownsChunk chunk) with
  | none => exact h
  | some d => exact Exec.wp_mono (wp_acceptInto h hfind) (fun _ _ h => h.sound) fun _ _ h => h.sound

omit [ContentHash H] in
theorem loading_handleCancel (cancel : Cancel) :
    Within (Exec.Keeps (Loading (H := H))) (handleCancel cancel) := by
  refine Exec.within_bind Exec.within_state fun n => Exec.within_ite (fun _ => ?_) fun _ _ h => h
  split
  · exact Exec.within_raise _
  · exact Exec.within_bind (loading_same (downloads_dbDo _)) fun _ _ h d hd =>
      h d (List.mem_of_mem_eraseP hd)

omit [ContentHash H] in
theorem loading_persistPendingDownloads (force : Bool) :
    Within (Exec.Keeps (Loading (H := H))) (persistPendingDownloads force) := by
  refine Exec.within_bind Exec.within_state fun _ => Exec.within_forM fun index _ =>
    Exec.within_bind Exec.within_state fun n => ?_
  split
  · exact Exec.within_pure _
  · exact Exec.within_when fun _ => Exec.within_bind (fun _ h => h)
      fun _ _ h => sound_modify h index

theorem loading_handleFileRequest (request : FileRequest H) :
    Within (Exec.Keeps (Loading (H := H))) (handleFileRequest request) := by
  refine Exec.within_bind Exec.within_state fun n => ?_
  split
  · exact fun _ h => h
  · refine Exec.within_bind (fun _ h => h) fun _ => ?_
    split
    · exact fun _ h => h
    · exact fun _ h => h

theorem loading_receiveData (frame : Frame H) :
    Within (Exec.Keeps Loading) (receiveData frame) := by
  refine Exec.within_bind Exec.within_state fun n => ?_
  cases frame with
  | manifest m =>
    exact Exec.within_ite (fun _ => Exec.within_raise _) fun _ => loading_applyManifest m
  | fileRequest r =>
    exact Exec.within_ite (fun _ => Exec.within_raise _) fun _ => loading_handleFileRequest r
  | chunk c =>
    exact Exec.within_ite (fun _ => Exec.within_raise _) fun _ => Exec.within_ite
      (fun _ => Exec.within_raise _) fun _ => loading_acceptChunk c
  | cancel c => exact loading_handleCancel c
  | _ => exact Exec.within_raise _

theorem loading_dispatch (channel : Channel) (frame : Frame H) :
    Within (Exec.Keeps Loading) (dispatch channel frame) := by
  refine Exec.within_ite (fun _ => Exec.within_raise _) fun _ => ?_
  have hdata : ∀ frame : Frame H, Within (Exec.Keeps Loading) (do
      let n ← Exec.state
      if !n.started || !n.receivedHello then Exec.raise (.invalidArgument "unauthorized_peer")
      else receiveData frame) := fun frame =>
    Exec.within_bind Exec.within_state fun _ => Exec.within_ite (fun _ => Exec.within_raise _)
      fun _ => loading_receiveData frame
  cases frame with
  | malformed error => exact Exec.within_raise _
  | hello hello =>
    refine Exec.within_bind Exec.within_state fun _ => Exec.within_ite
      (fun _ => Exec.within_raise _) fun _ => Exec.within_bind (fun _ h => h) fun _ => ?_
    exact Exec.within_when fun _ => Exec.within_bind (fun _ h => h) fun _ =>
      loading_same downloads_sendManifest
  | _ => exact hdata _

/-- **Every action keeps the downloads what they say.**  Downloads are only begun for entries of a
manifest, and what they are for does not change afterwards. -/
theorem loading_step (n : Node H) (action : Action H) (h : n.Loading) :
    (n.step action).Loading := by
  cases action with
  | start env => exact loading_same downloads_start { n with env } h
  | refreshSource env => exact loading_same downloads_refreshSource { n with env } h
  | pump env =>
    have hpump : Within (Exec.Keeps (Loading (H := H))) pump :=
      Exec.within_bind Exec.within_state fun _ => Exec.within_ite
        (fun _ => loading_persistPendingDownloads false) fun _ =>
          loading_same (downloads_pumpUploads _ _)
    exact hpump { n with env } h
  | receive env channel frame =>
    have hreceive : Within (Exec.Keeps (Loading (H := H))) (receive channel frame) :=
      Exec.within_orElse (loading_dispatch channel frame) fun _ _ h => h
    exact hreceive { n with env } h
  | shutdown env => exact nofun
  | crash => exact nofun
  | edit folder => exact h

/-- A file lands at once: `BeginDownload` returns and there is nothing to wait for. -/
inductive LandsAtOnce (n : Node H) : Path → Nat → H → Node H → Prop where
  | began {entry : ManifestEntry H} {hash : H} {n' : Node H}
      (hhash : entry.contentHash = .hash hash) (hrun : beginDownload entry n = (.ok (), n'))
      (hdone : entry.size = 0 ∨ ¬ n'.Fetching entry.relativePath hash) :
      LandsAtOnce n entry.relativePath entry.size hash n'

/-- A file lands with a chunk: `AcceptChunk` returns and a download is over. -/
inductive LandsLast (n : Node H) : Path → Nat → H → Node H → Prop where
  | arrived {chunk : Chunk H} {d : Download H} {n' : Node H}
      (hfind : n.downloads.find? (ownsChunk chunk) = some d)
      (hrun : acceptChunk chunk n = (.ok (), n'))
      (hdone : n'.downloads.length < n.downloads.length) :
      LandsLast n d.entry.relativePath d.entry.size d.hash n'

/-- What lands at once has a record, whatever node it lands in. -/
theorem LandsAtOnce.landed {p : Path} {size : Nat} {hash : H} (h : n.LandsAtOnce p size hash n') :
    Landed n'.folder n'.db p size hash := by
  obtain ⟨hhash, hrun, hdone⟩ := h
  rcases Exec.of_wp_run (wp_beginDownload hhash n) hrun with ⟨hsize, hfetching, -⟩ | ⟨-, hlanded⟩
  · exact hdone.elim (fun h => absurd h hsize) (absurd hfetching)
  · exact hlanded

/-- What lands with its last chunk has a record. -/
theorem LandsLast.landed {p : Path} {size : Nat} {hash : H} (hn : n.Loading)
    (h : n.LandsLast p size hash n') : Landed n'.folder n'.db p size hash := by
  cases h with
  | @arrived chunk d _ hfind hrun hdone =>
    have hmem := List.mem_of_find?_eq_some hfind
    have hwp : Wp (acceptChunk chunk) (fun _ n' => Arrived d n n')
        (fun _ n' => n'.counted = n.counted) n := by
      rw [acceptChunk, Exec.wp_bind, Exec.wp_state, hfind]
      exact wp_acceptInto_lands (hn d hmem) (List.any_eq_true.mpr ⟨d, hmem, List.find?_some hfind⟩)
    rcases Exec.of_wp_run hwp hrun with ⟨hsame, -⟩ | ⟨-, hlanded⟩
    · omega
    · exact hlanded

end OneWay.Node

/-! ## Both nodes

One statement for the two nodes, in both directions: what lands is recorded truly unless it is an
empty file that was announced with the hash of something else, and such a file is recorded
falsely. -/

/-- **Of all that lands, exactly the empty files with a wrong hash are recorded wrongly**, whatever
the manifest announces.  A manifest begins its downloads one after the other, so what
`BeginDownload` does is said of every state of a node; a chunk is accepted between the frames, in a
state that the node can reach. -/
theorem landing_verified_iff {H : Type} [ContentHash H] :
    (∀ n n' : Node H, ∀ p size hash, Node.LandsAtOnce n p size hash n' →
      Landed n'.folder n'.db p size hash) ∧
    (∀ n n' : Node H, ∀ env, Node.Reached n → ∀ p size hash,
      Node.LandsLast { n with env := env } p size hash n' →
        Landed n'.folder n'.db p size hash) ∧
    (∀ n n' : OneWay.Node H, ∀ p size hash, OneWay.Node.LandsAtOnce n p size hash n' →
      Landed n'.folder n'.db p size hash) ∧
    (∀ config env uuid transferId initialRevision (db : Database H) folder actions,
      ∀ n' : OneWay.Node H, ∀ env', ∀ p size hash,
        OneWay.Node.LandsLast { Run.run OneWay.Node.step
          (OneWay.Node.create config env uuid transferId initialRevision db folder) actions with
            env := env' } p size hash n' →
        Landed n'.folder n'.db p size hash) := by
  refine ⟨fun _ _ _ _ _ h => h.landed, fun n n' env hn p size hash h => ?_,
    fun _ _ _ _ _ h => h.landed,
    fun config env uuid transferId initialRevision db folder actions n' env' p size hash h => ?_⟩
  · have hloading : n.Loading := Node.loading_of_reached hn
    exact Node.LandsLast.landed (n := { n with env := env }) hloading h
  · have hloading := Run.run_invariant_all OneWay.Node.loading_step actions
      (show (OneWay.Node.create config env uuid transferId initialRevision db folder).Loading
        from nofun)
    exact OneWay.Node.LandsLast.landed
      (n := { Run.run OneWay.Node.step _ actions with env := env' }) hloading h

/-- An entry for an empty file, with the hash of another file. -/
def OneWay.liarEntry : ManifestEntry Bytes := ⟨ascii "f", 0, .hash [7]⟩

/-- The source says HELLO, and that the folder has the file. -/
def OneWay.announceLiar : List (OneWay.Node.Action Bytes) :=
  [.start sampleEnvironment, .receive sampleEnvironment .control (.hello OneWay.sourceHello),
    .receive sampleEnvironment .control (.manifest ⟨1, [OneWay.liarEntry]⟩)]

/-- A sample target that waits for the one chunk of the file `f`. -/
def OneWay.Node.waiting : OneWay.Node Bytes :=
  { Run.run OneWay.Node.step
      (.create sampleTarget.config sampleEnvironment (fun i => List.replicate (i + 1) 1) (· + 1) 0
        .empty (.empty [])) OneWay.announceByte with
    env := sampleEnvironment }

/-- The empty file lands at once, and the file of one byte with its chunk. -/
theorem landing_verified_iff_liar :
    Landed (OneWay.Node.beginDownload OneWay.liarEntry OneWay.Node.sampleTarget).2.folder
      (OneWay.Node.beginDownload OneWay.liarEntry OneWay.Node.sampleTarget).2.db (ascii "f") 0
      [7] ∧
    Landed (OneWay.Node.acceptChunk ⟨1, [7], 0, [7], [7]⟩ OneWay.Node.waiting).2.folder
      (OneWay.Node.acceptChunk ⟨1, [7], 0, [7], [7]⟩ OneWay.Node.waiting).2.db (ascii "f") 1
      [7] := by
  constructor
  · have hok : (OneWay.Node.beginDownload OneWay.liarEntry OneWay.Node.sampleTarget).1 =
      .ok () := by
      decide +kernel
    exact landing_verified_iff.2.2.1 _ _ _ _ _ (.began rfl (Prod.ext hok rfl) (.inl rfl))
  · have hok : (OneWay.Node.acceptChunk ⟨1, [7], 0, [7], [7]⟩ OneWay.Node.waiting).1 = .ok () := by
      decide +kernel
    have hdone : (OneWay.Node.acceptChunk ⟨1, [7], 0, [7], [7]⟩
        OneWay.Node.waiting).2.downloads.length < OneWay.Node.waiting.downloads.length := by
      decide +kernel
    have hfind : (OneWay.Node.waiting.downloads.find?
        (OneWay.Node.ownsChunk ⟨1, [7], 0, [7], [7]⟩)).map
          (fun d => (d.entry.relativePath, d.entry.size, d.hash)) = some (ascii "f", 1, [7]) := by
      decide +kernel
    obtain ⟨d, hd, heq⟩ := Option.map_eq_some_iff.mp hfind
    simp only [Prod.mk.injEq] at heq
    obtain ⟨hpath, hsize, hhash⟩ := heq
    have hrun : OneWay.Node.acceptChunk ⟨1, [7], 0, [7], [7]⟩ OneWay.Node.waiting =
        (.ok (), (OneWay.Node.acceptChunk ⟨1, [7], 0, [7], [7]⟩ OneWay.Node.waiting).2) := by
      rw [← hok]
    have hlands := OneWay.Node.LandsLast.arrived hd hrun hdone
    rw [hpath, hsize, hhash] at hlands
    exact landing_verified_iff.2.2.2 (.sample .target (by decide)) sampleEnvironment
      (fun i => List.replicate (i + 1) 1) (· + 1) 0 .empty (.empty []) OneWay.announceByte _
      sampleEnvironment _ _ _ hlands

/-- The record of the file that was announced has a hash that the file does not have. -/
theorem landing_unverified :
    ∃ r, (Run.run OneWay.Node.step OneWay.Node.sampleTarget OneWay.announceLiar).db.records.find
        (ascii "f") = some r ∧ r.kind = .file ∧
      ¬ (Run.run OneWay.Node.step OneWay.Node.sampleTarget OneWay.announceLiar).folder.Verifies
        r := by
  have hrecord : ((Run.run OneWay.Node.step OneWay.Node.sampleTarget
      OneWay.announceLiar).db.records.find (ascii "f")).map
        (fun r => (r.relativePath, r.kind, r.contentHash)) = some (ascii "f", .file, some [7]) := by
    decide +kernel
  have hcontent : (Run.run OneWay.Node.step OneWay.Node.sampleTarget
      OneWay.announceLiar).folder.readFile (ascii "f") = some [] := by decide +kernel
  obtain ⟨r, hr, heq⟩ := Option.map_eq_some_iff.mp hrecord
  simp only [Prod.mk.injEq] at heq
  obtain ⟨hpath, hkind, hhash⟩ := heq
  refine ⟨r, hr, hkind, ?_⟩
  rintro ⟨content, hread, -, hblake⟩
  rw [hpath, hcontent] at hread
  cases hread
  exact absurd (hhash.symm.trans hblake) (by decide)

end VeritasSync
