import VeritasSync.Sync.Lamport

/-!
# The two recorders of local changes

`RefreshLocal` of the node and `SnapshotReconciler::Apply` of the runtime both turn a snapshot into
new versions and tombstones.  The first walks the snapshot and the records itself; the second asks
`DiffManifest` what changed, builds its records from the answer, and writes them in one transaction.

Both are compared with one description: a list of `Draft`s, in the order in which identifiers and
clocks are drawn for them (`mint`).

That two functions do the same is hardest to see where they do it in a different order.
`RefreshLocal` draws a clock and an identifier and stores the record before it looks at the next
entry.  `Apply` first computes the records of all that has changed, drawing the identifiers, and
draws the clocks later, inside the transaction.  The drafts are what makes the two comparable: the
same list, minted in the same order, whichever way.

They are not the same in one respect.  An exception in the middle leaves what `RefreshLocal` has
recorded by then, and nothing of what `Apply` has.

## What is here

* `refreshLoops_mint` — what the loops of `RefreshLocal` do is the minting of the drafts.
* `diffEntries_eq` — what `DiffManifest` returns, as lists and not only as sets.
* `reconcile_mint` — what `Apply` does is the minting of the drafts, but for the time stamps of the
  records that did not change.
* `Reached`, `Node.sound_of_reached` — in a database that a node can come to have, every record is
  well formed and directories have no size.
* `recorders_agree` — so the two recorders agree.
-/

set_option autoImplicit false

namespace VeritasSync

variable {H : Type}

/-! ## Drafts

A draft is a version that is going to be recorded: the path, the parent, and what the record will
say besides the identifier and the clock that minting gives it. -/

/-- A version that is about to be created: the version it follows, and its record but for the
identifier and the clock. -/
structure Draft (H : Type) where
  parent : Option VersionId
  record : FileRecord H

/-- Create versions in order. -/
def mint (newId : Nat → VersionId) : Nat → Database H → List (Draft H) →
    Except Error (Database H × Nat)
  | used, db, [] => .ok (db, used)
  | used, db, draft :: rest => do
    let db ← recordNewVersion db draft.parent { draft.record with versionId := newId used }
    mint newId (used + 1) db rest

theorem mint_append (newId : Nat → VersionId) (used : Nat) (db : Database H)
    (drafts rest : List (Draft H)) :
    mint newId used db (drafts ++ rest) =
      (mint newId used db drafts >>= fun r => mint newId r.2 r.1 rest) := by
  induction drafts generalizing used db with
  | nil => rfl
  | cons draft drafts ih =>
    rw [List.cons_append, mint, mint]
    cases recordNewVersion db draft.parent { draft.record with versionId := newId used } with
    | error e => rfl
    | ok db' => exact ih (used + 1) db'

/-- The entry is new, or differs from its record. -/
def isChanged [ContentHash H] (known : List (FileRecord H)) (entry : SnapshotEntry H) : Bool :=
  !(known.find? fun record => record.relativePath = entry.relativePath).any fun record =>
    Node.sameSnapshot entry record

/-- The record is live and its path is gone. -/
def isVanished (snapshot : List (SnapshotEntry H)) (record : FileRecord H) : Bool :=
  !(record.kind = .tombstone ||
    (snapshot.find? fun entry => entry.relativePath = record.relativePath).isSome)

/-- The new version of an entry. -/
def changeDraft (taskId : Bytes) (origin : DeviceId) (known : List (FileRecord H))
    (entry : SnapshotEntry H) : Draft H where
  parent := (known.find? fun record => record.relativePath = entry.relativePath).map
    FileRecord.versionId
  record :=
    { taskId, relativePath := entry.relativePath, kind := entry.kind, size := entry.size
      mtimeNs := entry.mtimeNs, contentHash := entry.contentHash, versionId := []
      originDeviceId := origin, logicalClock := 0, deletedAtMs := none }

/-- The tombstone of a record. -/
def deletionDraft (taskId : Bytes) (origin : DeviceId) (nowMs : Int) (record : FileRecord H) :
    Draft H where
  parent := some record.versionId
  record := Database.tombstoneRecord taskId record.relativePath [] origin 0 nowMs

/-- What a scan records. -/
def draftsOf [ContentHash H] (taskId : Bytes) (origin : DeviceId) (nowMs : Int)
    (known : List (FileRecord H)) (snapshot : List (SnapshotEntry H)) : List (Draft H) :=
  (snapshot.filter (isChanged known)).map (changeDraft taskId origin known) ++
    (known.filter (isVanished snapshot)).map (deletionDraft taskId origin nowMs)

/-! ## The loops of `RefreshLocal` -/

namespace Node

theorem dbGet_apply {α : Type} {f : Database H → Except Error (α × Database H)} {n : Node H}
    (h : n.faultAfter = none) :
    dbGet f n =
      match f n.db with
      | .ok (a, db) => (.ok a, { n with db := db })
      | .error e => (.error e, n) := by
  rw [dbGet, durable_apply h, Exec.atomic]
  cases f n.db with
  | error e => rfl
  | ok r => rfl

theorem dbDo_apply {f : Database H → Except Error (Database H)} {n : Node H}
    (h : n.faultAfter = none) :
    dbDo f n =
      match f n.db with
      | .ok db => (.ok (), { n with db := db })
      | .error e => (.error e, n) := by
  rw [dbDo, durable_apply h, Exec.atomic]
  cases f n.db with
  | error e => rfl
  | ok r => rfl

/-- What a call of a node is, as a function of its database and its identifiers. -/
def Mints (n : Node H) (run : Except Error Unit × Node H)
    (minted : Except Error (Database H × Nat)) : Prop :=
  match minted with
  | .ok (db, used) => run = (.ok (), { n with db := db, uuidsUsed := used })
  | .error _ => ∃ e n', run = (.error e, n')

theorem createVersion_apply {parent : Option VersionId} {path : Path} {n : Node H}
    (h : n.faultAfter = none) :
    createVersion parent path n =
      match n.db.advanceLogicalClock 0 with
      | .error e => (.error e, n)
      | .ok (clock, db) =>
        match db.recordCreation ⟨n.uuid n.uuidsUsed, parent, path, n.config.deviceId, clock⟩ with
        | .error e => (.error e, { n with db := db, uuidsUsed := n.uuidsUsed + 1 })
        | .ok db =>
          (.ok (n.uuid n.uuidsUsed, clock), { n with db := db, uuidsUsed := n.uuidsUsed + 1 }) := by
  rw [createVersion, Exec.bind_apply, dbGet_apply h]
  cases hclock : n.db.advanceLogicalClock 0 with
  | error e => rfl
  | ok r =>
    obtain ⟨clock, db⟩ := r
    dsimp only
    rw [Exec.bind_apply]
    dsimp only [newUuidV4]
    rw [Exec.bind_apply, Exec.state_apply]
    dsimp only
    rw [Exec.bind_apply, dbDo_apply (n := { n with db := db, uuidsUsed := n.uuidsUsed + 1 }) h]
    dsimp only
    cases db.recordCreation ⟨n.uuid n.uuidsUsed, parent, path, n.config.deviceId, clock⟩ with
    | error e => rfl
    | ok db => rfl

/-- Creating a version and storing a record under it. -/
theorem store_mints (draft : Draft H) (store : VersionId × Nat → NodeM H Unit) {n : Node H}
    (h : n.faultAfter = none) (horigin : draft.record.originDeviceId = n.config.deviceId)
    (hstore : ∀ (version : VersionId × Nat) (db : Database H) (used : Nat),
      store version { n with db := db, uuidsUsed := used } =
        dbDo (fun db => db.upsertFileRecord
          { draft.record with versionId := version.1, logicalClock := version.2 })
          { n with db := db, uuidsUsed := used }) :
    Mints n ((createVersion draft.parent draft.record.relativePath >>= store) n)
      (mint n.uuid n.uuidsUsed n.db [draft]) := by
  rw [Exec.bind_apply, createVersion_apply h, mint, recordNewVersion]
  cases hclock : n.db.advanceLogicalClock 0 with
  | error e => exact ⟨e, n, rfl⟩
  | ok r =>
    obtain ⟨clock, db⟩ := r
    simp only [bind, Except.bind, horigin]
    cases hcreate : db.recordCreation ⟨n.uuid n.uuidsUsed, draft.parent, draft.record.relativePath,
        n.config.deviceId, clock⟩ with
    | error e => exact ⟨e, _, rfl⟩
    | ok db' =>
      dsimp only
      rw [hstore, dbDo_apply (n := { n with db := db', uuidsUsed := n.uuidsUsed + 1 }) h]
      dsimp only
      rw [horigin]
      cases db'.upsertFileRecord
          { draft.record with
            versionId := n.uuid n.uuidsUsed
            originDeviceId := n.config.deviceId
            logicalClock := clock } with
      | error e => exact ⟨e, _, rfl⟩
      | ok db'' => rfl

variable {n : Node H}

theorem recordChange_mints (h : n.faultAfter = none) (known : List (FileRecord H))
    (entry : SnapshotEntry H) :
    Mints n (recordChange (known.find? fun record => record.relativePath = entry.relativePath)
        entry n)
      (mint n.uuid n.uuidsUsed n.db [changeDraft n.config.taskId n.config.deviceId known entry]) :=
  store_mints (changeDraft n.config.taskId n.config.deviceId known entry) _ h rfl fun _ _ _ => rfl

theorem recordDeletion_mints (h : n.faultAfter = none) (record : FileRecord H) :
    Mints n (recordDeletion record n)
      (mint n.uuid n.uuidsUsed n.db
        [deletionDraft n.config.taskId n.config.deviceId n.nowMs record]) :=
  store_mints (deletionDraft n.config.taskId n.config.deviceId n.nowMs record) _ h rfl
    fun _ _ _ => rfl

/-- A loop that creates a version for some of its elements. -/
theorem forM_mints {γ : Type} (f : γ → NodeM H Unit) (p : γ → Bool) (draft : γ → Draft H)
    {l : List γ} (hf : ∀ a ∈ l, ∀ db used, Mints { n with db := db, uuidsUsed := used }
      (f a { n with db := db, uuidsUsed := used })
      (mint n.uuid used db (if p a then [draft a] else []))) (db : Database H) (used : Nat) :
    Mints { n with db := db, uuidsUsed := used } (l.forM f { n with db := db, uuidsUsed := used })
      (mint n.uuid used db ((l.filter p).map draft)) := by
  induction l generalizing db used with
  | nil => rfl
  | cons a l ih =>
    have hhead := hf a List.mem_cons_self db used
    have hsplit : ((a :: l).filter p).map draft =
        (if p a then [draft a] else []) ++ (l.filter p).map draft := by
      by_cases hp : p a = true
      · rw [List.filter_cons_of_pos hp, if_pos hp]
        rfl
      · rw [List.filter_cons_of_neg hp, if_neg hp]
        rfl
    rw [hsplit, mint_append]
    show Mints _ ((f a >>= fun _ => l.forM f) _) _
    rw [Exec.bind_apply]
    cases hmint : mint n.uuid used db (if p a then [draft a] else []) with
    | error e =>
      rw [hmint] at hhead
      obtain ⟨e', n', hrun⟩ := hhead
      rw [hrun]
      exact ⟨e', n', rfl⟩
    | ok r =>
      obtain ⟨db', used'⟩ := r
      rw [hmint] at hhead
      rw [show f a _ = _ from hhead]
      exact ih (fun b hb => hf b (List.mem_cons_of_mem _ hb)) db' used'

variable [ContentHash H]

theorem refreshEntry_mints (h : n.faultAfter = none) (known : List (FileRecord H))
    (entry : SnapshotEntry H) :
    Mints n (refreshEntry known entry n)
      (mint n.uuid n.uuidsUsed n.db (if isChanged known entry then
        [changeDraft n.config.taskId n.config.deviceId known entry] else [])) := by
  rw [refreshEntry]
  by_cases hchanged : isChanged known entry = true
  · rw [if_pos hchanged, Exec.when_pos (by simpa [isChanged] using hchanged)]
    exact recordChange_mints h known entry
  · rw [if_neg hchanged, Exec.when_neg (by simpa [isChanged] using hchanged)]
    rfl

omit [ContentHash H] in
theorem refreshRecord_mints (h : n.faultAfter = none) (snapshot : List (SnapshotEntry H))
    (record : FileRecord H) :
    Mints n (refreshRecord snapshot record n)
      (mint n.uuid n.uuidsUsed n.db (if isVanished snapshot record then
        [deletionDraft n.config.taskId n.config.deviceId n.nowMs record] else [])) := by
  rw [refreshRecord]
  by_cases hvanished : isVanished snapshot record = true
  · rw [if_pos hvanished, Exec.when_pos (by simpa [isVanished] using hvanished)]
    exact recordDeletion_mints h record
  · rw [if_neg hvanished, Exec.when_neg (by simpa [isVanished] using hvanished)]
    rfl

/-- **The loops of `RefreshLocal`** mint the drafts.  The first loop mints for what has changed and
the second for what is gone, in path order both. -/
theorem refreshLoops_mint (h : n.faultAfter = none) {known : List (FileRecord H)}
    {snapshot : List (SnapshotEntry H)} (hknown : Merge.Sorted FileRecord.relativePath known)
    (hsnapshot : Merge.Sorted SnapshotEntry.relativePath snapshot) :
    Mints n ((do
        refreshEntries known snapshot
        refreshDeletions snapshot known) n)
      (mint n.uuid n.uuidsUsed n.db
        (draftsOf n.config.taskId n.config.deviceId n.nowMs known snapshot)) := by
  have hentries := forM_mints (n := n) (l := snapshot) (refreshEntry known) (isChanged known)
    (changeDraft n.config.taskId n.config.deviceId known)
    (fun entry _ db used =>
      refreshEntry_mints (n := { n with db := db, uuidsUsed := used }) h known entry)
    n.db n.uuidsUsed
  have hdeletions := forM_mints (n := n) (l := known) (refreshRecord snapshot) (isVanished snapshot)
    (deletionDraft n.config.taskId n.config.deviceId n.nowMs)
    (fun record _ db used =>
      refreshRecord_mints (n := { n with db := db, uuidsUsed := used }) h snapshot record)
  rw [refreshEntries_eq hknown hsnapshot, refreshDeletions_eq hsnapshot hknown, draftsOf,
    mint_append, Exec.bind_apply]
  cases hmint : mint n.uuid n.uuidsUsed n.db
      ((snapshot.filter (isChanged known)).map
        (changeDraft n.config.taskId n.config.deviceId known)) with
  | error e =>
    rw [hmint] at hentries
    obtain ⟨e', n', hrun⟩ := hentries
    rw [show snapshot.forM (refreshEntry known) n = _ from hrun]
    exact ⟨e', n', rfl⟩
  | ok r =>
    obtain ⟨db, used⟩ := r
    rw [hmint] at hentries
    rw [show snapshot.forM (refreshEntry known) n = _ from hentries]
    exact hdeletions db used

end Node

/-! ## `DiffManifest` -/

section Diff

variable [ContentHash H]

/-- The two comparisons of an entry with its record give the same answer. -/
def Compare (entry : SnapshotEntry H) (record : FileRecord H) : Prop :=
  (if record.kind = .tombstone then pure false else isSameContent entry record) =
    (.ok (Node.sameSnapshot entry record) : Except Error Bool)

/-- An entry as a scan makes them: a directory without a size, or a file with its hash. -/
def SnapshotEntry.Proper (entry : SnapshotEntry H) : Prop :=
  if entry.isFile then entry.contentHash.isSome = true else entry.size = 0

theorem compare_of_proper {entry : SnapshotEntry H} {record : FileRecord H}
    (hentry : entry.Proper) (hrecord : record.kind = .directory → record.size = 0) :
    Compare entry record := by
  rw [Compare, Node.sameSnapshot, isSameContent, SnapshotEntry.kind]
  rw [SnapshotEntry.Proper] at hentry
  cases hfile : entry.isFile with
  | true =>
    rw [hfile, if_pos rfl] at hentry
    obtain ⟨hash, hhash⟩ := Option.isSome_iff_exists.mp hentry
    rw [hhash]
    cases hkind : record.kind with
    | file =>
      by_cases hsize : entry.size = record.size
      · simp [hsize]
      · simp [hsize]
    | directory => simp
    | tombstone => simp [pure, Except.pure]
  | false =>
    rw [hfile, if_neg Bool.false_ne_true] at hentry
    cases hkind : record.kind with
    | file => simp
    | directory => simp [hentry, hrecord hkind]
    | tombstone => simp [pure, Except.pure]

theorem isChanged_cons_of_ne {entry : SnapshotEntry H} {record : FileRecord H}
    {known : List (FileRecord H)} (h : record.relativePath ≠ entry.relativePath) :
    isChanged (record :: known) entry = isChanged known entry := by
  rw [isChanged, isChanged, List.find?_cons_of_neg (by simpa using h)]

theorem isChanged_of_forall_ne {entry : SnapshotEntry H} {known : List (FileRecord H)}
    (h : ∀ record ∈ known, record.relativePath ≠ entry.relativePath) :
    isChanged known entry = true := by
  rw [isChanged, List.find?_eq_none.mpr fun record hrecord => by simpa using h record hrecord]
  rfl

omit [ContentHash H] in
theorem isVanished_cons_of_ne {entry : SnapshotEntry H} {record : FileRecord H}
    {snapshot : List (SnapshotEntry H)} (h : entry.relativePath ≠ record.relativePath) :
    isVanished (entry :: snapshot) record = isVanished snapshot record := by
  rw [isVanished, isVanished, List.find?_cons_of_neg (by simpa using h)]

omit [ContentHash H] in
theorem isVanished_of_forall_ne {record : FileRecord H} {snapshot : List (SnapshotEntry H)}
    (h : ∀ entry ∈ snapshot, entry.relativePath ≠ record.relativePath) :
    isVanished snapshot record = decide (record.kind ≠ .tombstone) := by
  rw [isVanished, List.find?_eq_none.mpr fun entry hentry => by simpa using h entry hentry]
  simp

/-- A path on both sides: the rest decides about the others, and the comparison about this one. -/
theorem diff_both {entry : SnapshotEntry H} {scanned : List (SnapshotEntry H)}
    {record : FileRecord H} {known : List (FileRecord H)}
    (hpath : record.relativePath = entry.relativePath)
    (hscanned : Merge.Sorted SnapshotEntry.relativePath (entry :: scanned))
    (hknown : Merge.Sorted FileRecord.relativePath (record :: known)) :
    (entry :: scanned).filter (isChanged (record :: known)) =
        (if Node.sameSnapshot entry record then scanned.filter (isChanged known)
          else entry :: scanned.filter (isChanged known)) ∧
      (record :: known).filter (isVanished (entry :: scanned)) =
        known.filter (isVanished scanned) := by
  have hrest : scanned.filter (isChanged (record :: known)) = scanned.filter (isChanged known) :=
    List.filter_congr fun e he =>
      isChanged_cons_of_ne (hpath.trans_ne (ne_of_lt (hscanned.lt he)))
  have hhead : isChanged (record :: known) entry = !Node.sameSnapshot entry record := by
    rw [isChanged, List.find?_cons_of_pos (by simpa using hpath), Option.any_some]
  constructor
  · cases hsame : Node.sameSnapshot entry record with
    | true => rw [List.filter_cons_of_neg (by rw [hhead, hsame]; decide), hrest, if_pos rfl]
    | false =>
      rw [List.filter_cons_of_pos (by rw [hhead, hsame]; rfl), hrest, if_neg Bool.false_ne_true]
  · have hstays : isVanished (entry :: scanned) record = false := by
      rw [isVanished, List.find?_cons_of_pos (by simpa using hpath.symm), Option.isSome_some,
        Bool.or_true, Bool.not_true]
    rw [List.filter_cons_of_neg (by rw [hstays]; exact Bool.false_ne_true)]
    exact List.filter_congr fun r hr =>
      isVanished_cons_of_ne (hpath.symm.trans_ne (ne_of_lt (hknown.lt hr)))

/-- **What `DiffManifest` returns**, in order.  So the order of the drafts is the order of the two
loops of the other function. -/
theorem diffEntries_eq {fuel : Nat} {scanned : List (SnapshotEntry H)}
    {known : List (FileRecord H)} (hfuel : scanned.length + known.length ≤ fuel)
    (hscanned : Merge.Sorted SnapshotEntry.relativePath scanned)
    (hknown : Merge.Sorted FileRecord.relativePath known)
    (hcompare : ∀ entry ∈ scanned, ∀ record ∈ known, Compare entry record) :
    diffEntries fuel scanned known = .ok ⟨scanned.filter (isChanged known),
      (known.filter (isVanished scanned)).map FileRecord.relativePath⟩ := by
  fun_induction diffEntries fuel scanned known with
  | case1 fuel scanned =>
    rw [List.filter_eq_self.mpr fun entry _ => isChanged_of_forall_ne fun _ h =>
      absurd h List.not_mem_nil]
    rfl
  | case2 fuel known =>
    rw [deletedPathsOf, List.filter_congr fun record _ => isVanished_of_forall_ne
      fun _ h => absurd h List.not_mem_nil]
    rfl
  | case3 scanned known hknown' hscanned' =>
    -- the walk never runs out of fuel
    have hs : 0 < scanned.length := List.length_pos_iff.mpr hscanned'
    omega
  | case4 fuel entry scanned record known hlt ih =>
    rw [List.length_cons] at hfuel
    rw [ih (by omega) hscanned.tail hknown fun e he => hcompare e (List.mem_cons_of_mem _ he)]
    have hne : ∀ r ∈ record :: known, r.relativePath ≠ entry.relativePath := by
      intro r hr
      rcases List.mem_cons.mp hr with rfl | hr
      · exact (ne_of_lt hlt).symm
      · exact (ne_of_lt (hlt.trans (hknown.lt hr))).symm
    rw [List.filter_cons_of_pos (isChanged_of_forall_ne hne),
      List.filter_congr fun r hr => isVanished_cons_of_ne (hne r hr).symm]
    rfl
  | case5 fuel entry scanned record known hlt hgt ih =>
    have hlength : (record :: known).length = known.length + 1 := rfl
    rw [ih (by omega) hscanned hknown.tail fun e he r hr =>
      hcompare e he r (List.mem_cons_of_mem _ hr)]
    have hne : ∀ e ∈ entry :: scanned, e.relativePath ≠ record.relativePath := by
      intro e he
      rcases List.mem_cons.mp he with rfl | he
      · exact (ne_of_lt hgt).symm
      · exact (ne_of_lt (hgt.trans (hscanned.lt he))).symm
    have hchanged : (entry :: scanned).filter (isChanged (record :: known)) =
        (entry :: scanned).filter (isChanged known) :=
      List.filter_congr fun e he => isChanged_cons_of_ne (hne e he).symm
    have hvanished := isVanished_of_forall_ne hne
    by_cases hkind : record.kind ≠ .tombstone
    · have hgone : (record :: known).filter (isVanished (entry :: scanned)) =
          record :: known.filter (isVanished (entry :: scanned)) :=
        List.filter_cons_of_pos (hvanished.trans (decide_eq_true hkind))
      rw [hchanged, hgone]
      simp only [bind, Except.bind, pure, Except.pure, if_pos hkind]
      rfl
    · have hstays : (record :: known).filter (isVanished (entry :: scanned)) =
          known.filter (isVanished (entry :: scanned)) :=
        List.filter_cons_of_neg (by rw [hvanished]; simpa using hkind)
      rw [hchanged, hstays]
      simp only [bind, Except.bind, pure, Except.pure, if_neg hkind]
  | case6 fuel entry scanned record known hlt hgt jp htombstone ih =>
    have hpath := le_antisymm (not_lt.mp hlt) (not_lt.mp hgt)
    have hsame := hcompare entry List.mem_cons_self record List.mem_cons_self
    rw [Compare, if_pos htombstone] at hsame
    simp only [List.length_cons] at hfuel
    obtain ⟨hchanged, hvanished⟩ := diff_both hpath hscanned hknown
    show (diffEntries fuel scanned known >>= fun diff => pure (if false = true then diff
      else { diff with createdOrChanged := entry :: diff.createdOrChanged })) = _
    rw [hchanged, hvanished, ← Except.ok.inj hsame, ih (by omega) hscanned.tail hknown.tail
      fun e he r hr => hcompare e (List.mem_cons_of_mem _ he) r (List.mem_cons_of_mem _ hr)]
    rfl
  | case7 fuel entry scanned record known hlt hgt jp hlive ih =>
    have hpath := le_antisymm (not_lt.mp hlt) (not_lt.mp hgt)
    have hsame := hcompare entry List.mem_cons_self record List.mem_cons_self
    rw [Compare, if_neg hlive] at hsame
    simp only [List.length_cons] at hfuel
    obtain ⟨hchanged, hvanished⟩ := diff_both hpath hscanned hknown
    show (isSameContent entry record >>= fun same => diffEntries fuel scanned known >>= fun diff =>
      pure (if same = true then diff
        else { diff with createdOrChanged := entry :: diff.createdOrChanged })) = _
    rw [hchanged, hvanished, hsame, ih (by omega) hscanned.tail hknown.tail
      fun e he r hr => hcompare e (List.mem_cons_of_mem _ he) r (List.mem_cons_of_mem _ hr)]
    cases Node.sameSnapshot entry record with
    | true => rfl
    | false => rfl

theorem diffManifest_eq {snapshot : List (SnapshotEntry H)} {known : List (FileRecord H)}
    (hsnapshot : Merge.Sorted SnapshotEntry.relativePath snapshot)
    (hknown : Merge.Sorted FileRecord.relativePath known)
    (hcompare : ∀ entry ∈ snapshot, ∀ record ∈ known, Compare entry record) :
    diffManifest snapshot known = .ok ⟨snapshot.filter (isChanged known),
      (known.filter (isVanished snapshot)).map FileRecord.relativePath⟩ := by
  rw [diffManifest, orderedEntries_of_sorted hsnapshot, orderedEntries_of_sorted hknown]
  exact diffEntries_eq le_rfl hsnapshot hknown hcompare

/-! ## The records of `Apply` -/

/-- The records `Apply` is going to write, with every path looked up. -/
def upsertsBy (config : ReconcileConfig) (newId : Nat → VersionId) (known : List (FileRecord H))
    (changed : SnapshotEntry H → Bool) : Nat → List (SnapshotEntry H) →
      List (FileRecord H) × Nat
  | used, [] => ([], used)
  | used, entry :: snapshot =>
    match known.find? (fun record => record.relativePath = entry.relativePath), changed entry with
    | some record, false =>
      let rest := upsertsBy config newId known changed used snapshot
      if record.size ≠ entry.size ∨ record.mtimeNs ≠ entry.mtimeNs then
        ({ record with size := entry.size, mtimeNs := entry.mtimeNs } :: rest.1, rest.2)
      else rest
    | _, _ =>
      let rest := upsertsBy config newId known changed (used + 1) snapshot
      (makeRecord entry config (newId used) :: rest.1, rest.2)

omit [ContentHash H] in
theorem upsertsBy_congr (config : ReconcileConfig) (newId : Nat → VersionId)
    {known known' : List (FileRecord H)} {changed changed' : SnapshotEntry H → Bool}
    {snapshot : List (SnapshotEntry H)}
    (hknown : ∀ entry ∈ snapshot,
      known'.find? (fun record => record.relativePath = entry.relativePath) =
        known.find? (fun record => record.relativePath = entry.relativePath))
    (hchanged : ∀ entry ∈ snapshot, changed' entry = changed entry) (used : Nat) :
    upsertsBy config newId known' changed' used snapshot =
      upsertsBy config newId known changed used snapshot := by
  induction snapshot generalizing used with
  | nil => rfl
  | cons entry snapshot ih =>
    have hrest := ih (fun e he => hknown e (List.mem_cons_of_mem _ he))
      fun e he => hchanged e (List.mem_cons_of_mem _ he)
    rw [upsertsBy, upsertsBy, hknown entry List.mem_cons_self, hchanged entry List.mem_cons_self]
    simp only [hrest]

omit [ContentHash H] in
/-- On sorted lists the loop of `Apply` looks every entry up. -/
theorem upsertsOf_eq (config : ReconcileConfig) (newId : Nat → VersionId) {used : Nat}
    {known : List (FileRecord H)} {changed snapshot : List (SnapshotEntry H)}
    (hknown : Merge.Sorted FileRecord.relativePath known)
    (hchanged : Merge.Sorted SnapshotEntry.relativePath changed)
    (hsnapshot : Merge.Sorted SnapshotEntry.relativePath snapshot) :
    upsertsOf config newId used known changed snapshot =
      upsertsBy config newId known
        (fun entry => (changed.find? fun c => c.relativePath = entry.relativePath).isSome) used
        snapshot := by
  induction snapshot generalizing used known changed with
  | nil => rfl
  | cons entry snapshot ih =>
    have hrest : ∀ used, upsertsOf config newId used
        (known.dropWhile fun record => record.relativePath < entry.relativePath)
        (changed.dropWhile fun c => c.relativePath < entry.relativePath) snapshot =
          upsertsBy config newId known
            (fun entry => (changed.find? fun c => c.relativePath = entry.relativePath).isSome) used
            snapshot := by
      intro used
      rw [ih (hknown.sublist (List.dropWhile_sublist _))
        (hchanged.sublist (List.dropWhile_sublist _)) hsnapshot.tail]
      refine upsertsBy_congr config newId (fun later hlater => ?_) (fun later hlater => ?_) used
      · rw [Merge.find?_dropWhile (hsnapshot.lt hlater).le]
      · rw [Merge.find?_dropWhile (hsnapshot.lt hlater).le]
    rw [upsertsOf, upsertsBy]
    dsimp only
    rw [Merge.head?_dropWhile_filter hknown, Merge.head?_dropWhile_any hchanged]
    cases known.find? fun record => record.relativePath = entry.relativePath with
    | none => simp only [hrest]
    | some record =>
      cases (changed.find? fun c => c.relativePath = entry.relativePath).isSome with
      | true => simp only [hrest]
      | false => simp only [hrest]

/-- What `Apply` asks about an entry is what `DiffManifest` found. -/
theorem isSome_find?_filter {known : List (FileRecord H)} {snapshot : List (SnapshotEntry H)}
    (hsnapshot : Merge.Sorted SnapshotEntry.relativePath snapshot) {entry : SnapshotEntry H}
    (hentry : entry ∈ snapshot) :
    ((snapshot.filter (isChanged known)).find? fun c =>
      c.relativePath = entry.relativePath).isSome = isChanged known entry := by
  cases hchanged : isChanged known entry with
  | true =>
    have hmem : entry ∈ snapshot.filter (isChanged known) := List.mem_filter.mpr ⟨hentry, hchanged⟩
    rw [((hsnapshot.sublist List.filter_sublist).find?_eq_some_iff (k := entry.relativePath)).mpr
      ⟨hmem, rfl⟩]
    rfl
  | false =>
    rw [List.find?_eq_none.mpr, Option.isSome_none]
    intro c hc hpath
    obtain ⟨hc, hchanged'⟩ := List.mem_filter.mp hc
    rw [hsnapshot.eq_of_key_eq hc hentry (by simpa using hpath), hchanged] at hchanged'
    cases hchanged'

end Diff

/-! ## Alike databases -/

/-- Both computations return, with results related by `R`, or both throw. -/
def Agree {α β : Type} (R : α → β → Prop) : Except Error α → Except Error β → Prop
  | .ok a, .ok b => R a b
  | .error _, .error _ => True
  | _, _ => False

theorem Agree.bind {α β γ δ : Type} {R : α → β → Prop} {S : γ → δ → Prop} {x : Except Error α}
    {y : Except Error β} {f : α → Except Error γ} {g : β → Except Error δ} (h : Agree R x y)
    (hfg : ∀ a b, R a b → Agree S (f a) (g b)) : Agree S (x >>= f) (y >>= g) := by
  cases x with
  | error e =>
    cases y with
    | error e' => trivial
    | ok b => exact h.elim
  | ok a =>
    cases y with
    | error e' => exact h.elim
    | ok b => exact hfg a b h

/-- A record but for its times. -/
def FileRecord.forget (r : FileRecord H) : FileRecord H :=
  { r with mtimeNs := 0, deletedAtMs := r.deletedAtMs.map fun _ => 0 }

/-- Two rows of one path that are the same but for the time of deletion, and for the time stamp of a
record that was there `before`. -/
structure SameRow (before row row' : Option (FileRecord H)) : Prop where
  forget : row'.map FileRecord.forget = row.map FileRecord.forget
  mtime : ∀ r r', row = some r → row' = some r' → r'.mtimeNs = r.mtimeNs ∨ before = some r

theorem SameRow.refl (before row : Option (FileRecord H)) : SameRow before row row := by
  refine ⟨rfl, fun r r' hr hr' => .inl ?_⟩
  rw [hr] at hr'
  cases hr'
  rfl

/-- Two databases with alike records, and the same everything else. -/
structure Alike (before : Path → Option (FileRecord H)) (db db' : Database H) : Prop where
  rest : db' = { db with records := db'.records }
  records : ∀ p, SameRow (before p) (db.records.find p) (db'.records.find p)

theorem Alike.refl (before : Path → Option (FileRecord H)) (db : Database H) :
    Alike before db db := ⟨rfl, fun _ => .refl _ _⟩

section Alike

variable {before : Path → Option (FileRecord H)} {db db' : Database H}

/-- Alike rows go to one path of alike databases. -/
theorem Alike.insert (h : Alike before db db') {p : Path} {r r' : FileRecord H}
    (hrow : SameRow (before p) (some r) (some r')) :
    Alike before { db with records := db.records.insert p r }
      { db' with records := db'.records.insert p r' } := by
  refine ⟨by rw [h.rest], fun q => ?_⟩
  by_cases hq : q = p
  · subst hq
    rw [OrdMap.find_insert_self, OrdMap.find_insert_self]
    exact hrow
  · rw [OrdMap.find_insert_of_ne _ _ hq, OrdMap.find_insert_of_ne _ _ hq]
    exact h.records q

/-- One of them gets a row alike to the one the other has. -/
theorem Alike.touch (h : Alike before db db') {p : Path} {r r' : FileRecord H}
    (hr : db.records.find p = some r) (hrow : SameRow (before p) (some r) (some r')) :
    Alike before db { db' with records := db'.records.insert p r' } := by
  refine ⟨by rw [h.rest], fun q => ?_⟩
  by_cases hq : q = p
  · subst hq
    rw [OrdMap.find_insert_self, hr]
    exact hrow
  · rw [OrdMap.find_insert_of_ne _ _ hq]
    exact h.records q

theorem advanceLogicalClock_records (db : Database H) (records : OrdMap Path (FileRecord H))
    (observed : Nat) :
    ({ db with records := records } : Database H).advanceLogicalClock observed =
      (db.advanceLogicalClock observed).map fun r => (r.1, { r.2 with records := records }) := by
  simp only [Database.advanceLogicalClock]
  split
  · rfl
  · split
    · rfl
    · rfl

theorem recordCreation_records (db : Database H) (records : OrdMap Path (FileRecord H))
    (c : Creation) :
    ({ db with records := records } : Database H).recordCreation c =
      (db.recordCreation c).map fun d => { d with records := records } := by
  simp only [Database.recordCreation, Database.recordVersionLineage, Database.findVersionLineage]
  split
  · rfl
  · cases hversion : decide (c.versionId = []) with
    | true =>
      rw [if_pos (of_decide_eq_true hversion)]
      rfl
    | false =>
      rw [if_neg (of_decide_eq_false hversion)]
      cases db.lineage.find c.versionId with
      | none => rfl
      | some parent =>
        simp only [Option.map_some, bind, Except.bind]
        by_cases hparent : parent ≠ c.parentVersionId
        · rw [if_pos hparent, if_pos hparent]
          rfl
        · rw [if_neg hparent, if_neg hparent]
          rfl

theorem advanceLogicalClock_agree (h : Alike before db db') (observed : Nat) :
    Agree (fun r r' : Nat × Database H => r'.1 = r.1 ∧ Alike before r.2 r'.2 ∧
        r.2.records = db.records) (db.advanceLogicalClock observed)
      (db'.advanceLogicalClock observed) := by
  rw [h.rest, advanceLogicalClock_records db db'.records]
  cases hclock : db.advanceLogicalClock observed with
  | error e => trivial
  | ok r =>
    obtain ⟨-, hr⟩ := Database.advanceLogicalClock_eq_ok hclock
    have hrecords : r.2.records = db.records := by rw [hr]
    refine ⟨rfl, ⟨rfl, fun p => ?_⟩, hrecords⟩
    rw [hrecords]
    exact h.records p

theorem recordCreation_agree (h : Alike before db db') (c : Creation) :
    Agree (fun d d' : Database H => Alike before d d' ∧ d.records = db.records)
      (db.recordCreation c) (db'.recordCreation c) := by
  rw [h.rest, recordCreation_records db db'.records]
  cases hcreate : db.recordCreation c with
  | error e => trivial
  | ok d =>
    obtain ⟨-, lineage, rfl, -⟩ := Database.recordCreation_eq_ok hcreate
    exact ⟨⟨rfl, h.records⟩, rfl⟩

/-- The checks do not look at the clock. -/
theorem upsertFileRecord_clock (db : Database H) (record : FileRecord H) (clock : Nat) :
    db.upsertFileRecord { record with logicalClock := clock } =
      (Database.validateFileRecord record).map fun _ => { db with
        records := db.records.insert record.relativePath
          { record with logicalClock := clock } } := by
  rw [Database.upsertFileRecord]
  show (Database.validateFileRecord record >>= _) = _
  cases Database.validateFileRecord record with
  | error e => rfl
  | ok u => rfl

/-- **A new version** of alike records is recorded alike.  Alike records have the same version, and
nothing else of them is looked at. -/
theorem recordNewVersion_agree (h : Alike before db db') {parent : Option VersionId}
    {r r' : FileRecord H} (hversion : r'.versionId = r.versionId)
    (hpath : r'.relativePath = r.relativePath) (horigin : r'.originDeviceId = r.originDeviceId)
    (hvalid : Database.validateFileRecord r' = Database.validateFileRecord r)
    (hrow : ∀ clock, SameRow (before r.relativePath) (some { r with logicalClock := clock })
      (some { r' with logicalClock := clock })) :
    Agree (fun d d' => Alike before d d' ∧
        ∀ p, p ≠ r.relativePath → d.records.find p = db.records.find p)
      (recordNewVersion db parent r) (recordNewVersion db' parent r') := by
  rw [recordNewVersion, recordNewVersion]
  refine (advanceLogicalClock_agree h 0).bind ?_
  rintro ⟨clock, d⟩ ⟨clock', d'⟩ ⟨hclock, hd, hrecords⟩
  dsimp only at hclock hd hrecords ⊢
  subst hclock
  have hcreation : (⟨r'.versionId, parent, r'.relativePath, r'.originDeviceId, clock'⟩ : Creation) =
      ⟨r.versionId, parent, r.relativePath, r.originDeviceId, clock'⟩ := by
    rw [hversion, hpath, horigin]
  rw [hcreation]
  refine (recordCreation_agree hd _).bind fun e e' => ?_
  rintro ⟨he, hrecords'⟩
  rw [upsertFileRecord_clock, upsertFileRecord_clock, hvalid, hpath]
  cases Database.validateFileRecord r with
  | error e => trivial
  | ok u =>
    have hrow' := hrow clock'
    rw [hpath] at hrow'
    refine ⟨he.insert hrow', fun p hp => ?_⟩
    show (e.records.insert _ _).find p = _
    rw [OrdMap.find_insert_of_ne _ _ hp, hrecords', hrecords]

end Alike

/-! ## `Apply` -/

section Apply

variable [ContentHash H]

/-- Every record is stored under its path and passes its checks, and directories have no size. -/
def Database.Sound (db : Database H) : Prop :=
  ∀ p r, db.records.find p = some r → r.relativePath = p ∧
    Database.validateFileRecord r = .ok () ∧ (r.kind = .directory → r.size = 0)

omit [ContentHash H] in
theorem Database.Sound.keyed {db : Database H} (h : db.Sound) : db.Keyed :=
  fun p r hr => (h p r hr).1

/-- The identifiers from `used` on are those of no record. -/
def FreshFrom (newId : Nat → VersionId) (used : Nat) (db : Database H) : Prop :=
  ∀ i, used ≤ i → ∀ p r, db.records.find p = some r → r.versionId ≠ newId i

variable {base : Database H} {config : ReconcileConfig} {newId : Nat → VersionId}

theorem size_of_sameSnapshot {entry : SnapshotEntry H} {record : FileRecord H}
    (h : Node.sameSnapshot entry record = true) : entry.size = record.size := by
  rw [Node.sameSnapshot] at h
  split at h
  · cases h
  · rename_i hne
    rw [not_or, not_not, not_not] at hne
    exact hne.2

omit [ContentHash H] in
/-- A record that did not change keeps its version, and gets the time stamp of its entry. -/
theorem reconcileUpsert_touched (hbase : base.Sound) {entry : SnapshotEntry H}
    {record : FileRecord H} (hrecord : base.records.find entry.relativePath = some record)
    (db : Database H) :
    reconcileUpsert true base.records.find db
        { record with size := entry.size, mtimeNs := entry.mtimeNs } =
      .ok { db with
        records := db.records.insert entry.relativePath { record with
          size := entry.size
          mtimeNs := entry.mtimeNs } } := by
  obtain ⟨hpath, hvalid, -⟩ := hbase _ _ hrecord
  have hsame : ¬ ((true = true) ∧ (base.records.find record.relativePath).map
      FileRecord.versionId ≠ some record.versionId) := by
    rw [hpath, hrecord]
    simp
  have hvalid' : Database.validateFileRecord
      { record with size := entry.size, mtimeNs := entry.mtimeNs } = .ok () := hvalid
  rw [reconcileUpsert, if_neg hsame, Database.upsertFileRecord, hvalid', ← hpath]
  rfl

omit [ContentHash H] in
/-- A new or changed entry gets a new version. -/
theorem reconcileUpsert_changed {used : Nat} (hfresh : FreshFrom newId used base)
    (entry : SnapshotEntry H) (db : Database H) :
    reconcileUpsert true base.records.find db (makeRecord entry config (newId used)) =
      recordNewVersion db ((base.records.find entry.relativePath).map FileRecord.versionId)
        (makeRecord entry config (newId used)) := by
  refine if_pos ⟨rfl, fun heq => ?_⟩
  obtain ⟨r, hr, hversion⟩ := Option.map_eq_some_iff.mp heq
  exact hfresh used le_rfl _ r hr hversion

omit [ContentHash H] in
theorem upsertsBy_changed {known : List (FileRecord H)} {changed : SnapshotEntry H → Bool}
    {entry : SnapshotEntry H} (h : changed entry = true) (used : Nat)
    (snapshot : List (SnapshotEntry H)) :
    upsertsBy config newId known changed used (entry :: snapshot) =
      (makeRecord entry config (newId used) ::
          (upsertsBy config newId known changed (used + 1) snapshot).1,
        (upsertsBy config newId known changed (used + 1) snapshot).2) := by
  rw [upsertsBy, h]
  cases known.find? fun record => record.relativePath = entry.relativePath with
  | none => rfl
  | some record => rfl

/-- The transaction's first loop. -/
theorem reconcileUpserts_agree (hbase : base.Sound) {snapshot : List (SnapshotEntry H)}
    (hsnapshot : Merge.Sorted SnapshotEntry.relativePath snapshot) {used : Nat}
    (hfresh : FreshFrom newId used base) {db db' : Database H}
    (h : Alike base.records.find db db')
    (hstill : ∀ entry ∈ snapshot,
      db.records.find entry.relativePath = base.records.find entry.relativePath) :
    Agree (fun (r : Database H × Nat) d' => Alike base.records.find r.1 d' ∧
        r.2 = (upsertsBy config newId base.listFileRecords (isChanged base.listFileRecords) used
          snapshot).2)
      (mint newId used db ((snapshot.filter (isChanged base.listFileRecords)).map
        (changeDraft config.taskId config.originDeviceId base.listFileRecords)))
      (reconcileUpserts true base.records.find db' (upsertsBy config newId base.listFileRecords
        (isChanged base.listFileRecords) used snapshot).1) := by
  induction snapshot generalizing used db db' with
  | nil => exact ⟨h, rfl⟩
  | cons entry snapshot ih =>
    have hlookup := hbase.keyed.find?_listFileRecords entry.relativePath
    have hrest : ∀ e ∈ snapshot,
        db.records.find e.relativePath = base.records.find e.relativePath :=
      fun e he => hstill e (List.mem_cons_of_mem _ he)
    -- an entry without a change is touched at most; a changed one gets a version from both
    cases hchanged : isChanged base.listFileRecords entry with
    | false =>
      rw [List.filter_cons_of_neg (by rw [hchanged]; exact Bool.false_ne_true), upsertsBy]
      obtain ⟨record, hrecord, hsame⟩ : ∃ record, base.records.find entry.relativePath =
          some record ∧ Node.sameSnapshot entry record = true := by
        rw [isChanged, Bool.not_eq_false', hlookup, Option.any_eq_true] at hchanged
        exact hchanged
      rw [hlookup, hrecord, hchanged]
      dsimp only
      split
      · rw [reconcileUpserts, reconcileUpsert_touched hbase hrecord]
        have hrow : SameRow (base.records.find entry.relativePath) (some record)
            (some { record with size := entry.size, mtimeNs := entry.mtimeNs }) := by
          refine ⟨?_, fun r r' hr _ => .inr (hrecord.trans hr)⟩
          rw [Option.map_some, Option.map_some, FileRecord.forget, FileRecord.forget,
            size_of_sameSnapshot hsame]
        exact ih hsnapshot.tail hfresh
          (h.touch ((hstill entry List.mem_cons_self).trans hrecord) hrow) hrest
      · exact ih hsnapshot.tail hfresh h hrest
    | true =>
      have hfresh' : FreshFrom newId (used + 1) base := fun i hi => hfresh i (Nat.le_of_succ_le hi)
      have hparent : (changeDraft config.taskId config.originDeviceId base.listFileRecords
          entry).parent = (base.records.find entry.relativePath).map FileRecord.versionId :=
        congrArg (Option.map FileRecord.versionId) hlookup
      rw [List.filter_cons_of_pos hchanged, List.map_cons, mint, upsertsBy_changed hchanged,
        reconcileUpserts, reconcileUpsert_changed hfresh, hparent]
      refine (recordNewVersion_agree h rfl rfl rfl rfl fun clock => .refl _ _).bind fun d d' => ?_
      rintro ⟨hd, hkept⟩
      refine ih hsnapshot.tail hfresh' hd fun e he => ?_
      rw [hkept _ (ne_of_lt (hsnapshot.lt he)).symm]
      exact hrest e he

omit [ContentHash H] in
/-- The transaction's second loop. -/
theorem reconcileDeletes_agree {nowMs : Int} {records : List (FileRecord H)}
    (hrecords : ∀ record ∈ records, base.records.find record.relativePath = some record)
    {used : Nat} {db db' : Database H} (h : Alike base.records.find db db') :
    Agree (fun r r' : Database H × Nat => Alike base.records.find r.1 r'.1 ∧ r.2 = r'.2)
      (mint newId used db (records.map (deletionDraft config.taskId config.originDeviceId nowMs)))
      (reconcileDeletes true config base.records.find newId used db'
        (records.map FileRecord.relativePath)) := by
  induction records generalizing used db db' with
  | nil => exact ⟨h, rfl⟩
  | cons record records ih =>
    have hrecord := hrecords record List.mem_cons_self
    have hstep : Agree (fun d d' => Alike base.records.find d d' ∧
        ∀ p, p ≠ record.relativePath → d.records.find p = db.records.find p)
      (recordNewVersion db (some record.versionId) (Database.tombstoneRecord config.taskId
        record.relativePath (newId used) config.originDeviceId 0 nowMs))
      (recordNewVersion db' (some record.versionId) (Database.tombstoneRecord config.taskId
        record.relativePath (newId used) config.originDeviceId config.logicalClock
          config.nowMs)) := by
      refine recordNewVersion_agree h rfl rfl rfl rfl fun clock => ?_
      refine ⟨rfl, fun r r' hr hr' => .inl ?_⟩
      cases hr
      cases hr'
      rfl
    rw [List.map_cons, List.map_cons, mint, reconcileDeletes, reconcileDelete, if_pos rfl, hrecord]
    exact hstep.bind fun d d' hd =>
      ih (fun r hr => hrecords r (List.mem_cons_of_mem _ hr)) hd.1

/-- On sound records and proper entries the two comparisons give the same answers. -/
theorem Database.Sound.compare (hbase : base.Sound) {snapshot : List (SnapshotEntry H)}
    (hproper : ∀ entry ∈ snapshot, entry.Proper) :
    ∀ entry ∈ snapshot, ∀ record ∈ base.listFileRecords, Compare entry record := by
  intro entry hentry record hrecord
  obtain ⟨p, hp⟩ := Database.mem_listFileRecords.mp hrecord
  exact compare_of_proper (hproper entry hentry) (hbase p record hp).2.2

/-- The records `Apply` writes, when it is told what `DiffManifest` found. -/
theorem upsertsOf_changed (hbase : base.Keyed) {snapshot : List (SnapshotEntry H)}
    (hsnapshot : Merge.Sorted SnapshotEntry.relativePath snapshot) {used : Nat} :
    upsertsOf config newId used base.listFileRecords
        (snapshot.filter (isChanged base.listFileRecords)) snapshot =
      upsertsBy config newId base.listFileRecords (isChanged base.listFileRecords) used
        snapshot := by
  rw [upsertsOf_eq config newId hbase.sorted (hsnapshot.sublist List.filter_sublist) hsnapshot]
  exact upsertsBy_congr config newId (fun _ _ => rfl)
    (fun entry hentry => isSome_find?_filter hsnapshot hentry) used

variable (config) in
/-- **`Apply`** mints the drafts, but for the time stamps of what did not change.  A time stamp that
has changed alone is refreshed without a version, which the other function does not do. -/
theorem reconcile_mint (hbase : base.Sound) {snapshot : List (SnapshotEntry H)}
    (hsnapshot : Merge.Sorted SnapshotEntry.relativePath snapshot)
    (hproper : ∀ entry ∈ snapshot, entry.Proper) (htask : config.taskId ≠ [])
    (horigin : config.originDeviceId ≠ []) (hnow : 0 < config.nowMs) {used : Nat}
    (hfresh : FreshFrom newId used base) (nowMs : Int) :
    Agree (fun (r : Database H × Nat) (r' : (ReconcileResult × Nat) × Database H) =>
        Alike base.records.find r.1 r'.2 ∧ r.2 = r'.1.2)
      (mint newId used base (draftsOf config.taskId config.originDeviceId nowMs
        base.listFileRecords snapshot))
      (reconcile true base snapshot config newId used) := by
  have hsorted : (snapshot.map SnapshotEntry.relativePath).Pairwise (· ≤ ·) :=
    List.pairwise_map.mpr hsnapshot.le
  have hknown : ∀ record ∈ base.listFileRecords.filter (isVanished snapshot),
      base.records.find record.relativePath = some record := by
    intro record hrecord
    obtain ⟨p, hp⟩ := Database.mem_listFileRecords.mp (List.mem_of_mem_filter hrecord)
    rw [hbase.keyed p record hp, hp]
  rw [reconcile, if_neg (by simp [htask, horigin, hnow]), if_neg (by simpa using hsorted)]
  dsimp only
  rw [diffManifest_eq hsnapshot hbase.keyed.sorted (hbase.compare hproper), draftsOf, mint_append]
  show Agree _ _ (reconcileUpserts true base.records.find base (upsertsOf config newId used
      base.listFileRecords (snapshot.filter (isChanged base.listFileRecords)) snapshot).1 >>=
    fun db => reconcileDeletes true config base.records.find newId (upsertsOf config newId used
      base.listFileRecords (snapshot.filter (isChanged base.listFileRecords)) snapshot).2 db
      ((base.listFileRecords.filter (isVanished snapshot)).map FileRecord.relativePath) >>=
        fun r => pure ((_, r.2), r.1))
  rw [upsertsOf_changed hbase.keyed hsnapshot]
  refine (reconcileUpserts_agree hbase hsnapshot hfresh (.refl _ base) fun _ _ => rfl).bind
    fun r db' => ?_
  rintro ⟨halike, hused⟩
  rw [← hused, ← bind_pure (x := mint newId r.2 r.1 _)]
  exact (reconcileDeletes_agree hknown halike).bind fun r r' h => h

end Apply

/-! ## Reachable databases

The comparisons of the two functions differ on records that no node ever has: a directory with a
size, a record under another path than its own.  That no node has one is an invariant of everything
a node can do, frames from any peer included. -/

namespace Database.Sound

variable {db : Database H}

theorem congr {db' : Database H} (h : db.Sound) (hrecords : db'.records = db.records) :
    db'.Sound := by
  rw [Database.Sound, hrecords]
  exact h

theorem insert (h : db.Sound) {r : FileRecord H} (hvalid : Database.validateFileRecord r = .ok ())
    (hsize : r.kind = .directory → r.size = 0) :
    Database.Sound { db with records := db.records.insert r.relativePath r } := by
  intro p r' hr'
  by_cases hp : p = r.relativePath
  · subst hp
    rw [OrdMap.find_insert_self] at hr'
    cases hr'
    exact ⟨rfl, hvalid, hsize⟩
  · rw [OrdMap.find_insert_of_ne _ _ hp] at hr'
    exact h p r' hr'

theorem upsertFileRecord {db' : Database H} (h : db.Sound) {r : FileRecord H}
    (hsize : r.kind = .directory → r.size = 0) (hdb : db.upsertFileRecord r = .ok db') :
    db'.Sound := by
  obtain ⟨hvalid, rfl⟩ := Database.upsertFileRecord_eq_ok hdb
  exact h.insert hvalid hsize

theorem recordNewVersion {db' : Database H} (h : db.Sound) {parent : Option VersionId}
    {r : FileRecord H} (hsize : r.kind = .directory → r.size = 0)
    (hdb : VeritasSync.recordNewVersion db parent r = .ok db') : db'.Sound := by
  obtain ⟨⟨clock, db1⟩, hclock, hrest⟩ := ok_of_bind hdb
  obtain ⟨db2, hcreate, hupsert⟩ := ok_of_bind hrest
  obtain ⟨-, rfl⟩ := Database.advanceLogicalClock_eq_ok hclock
  obtain ⟨-, lineage, hlineage, -⟩ := Database.recordCreation_eq_ok hcreate
  have h2 : db2.Sound := h.congr (by rw [hlineage])
  exact h2.upsertFileRecord (r := { r with logicalClock := clock }) hsize hupsert

theorem reconcileUpserts {previous : Path → Option (FileRecord H)} {upserts : List (FileRecord H)}
    {db' : Database H} (h : db.Sound)
    (hsize : ∀ r ∈ upserts, r.kind = .directory → r.size = 0)
    (hdb : VeritasSync.reconcileUpserts true previous db upserts = .ok db') : db'.Sound := by
  induction upserts generalizing db with
  | nil =>
    cases hdb
    exact h
  | cons r upserts ih =>
    obtain ⟨db1, hstep, hdb⟩ := ok_of_bind hdb
    refine ih ?_ (fun r hr => hsize r (List.mem_cons_of_mem _ hr)) hdb
    rw [reconcileUpsert] at hstep
    split at hstep
    · exact h.recordNewVersion (hsize r List.mem_cons_self) hstep
    · exact h.upsertFileRecord (hsize r List.mem_cons_self) hstep

theorem reconcileDeletes {previous : Path → Option (FileRecord H)} {config : ReconcileConfig}
    {newId : Nat → VersionId} {paths : List Path} {used used' : Nat} {db' : Database H}
    (h : db.Sound) (hdb : VeritasSync.reconcileDeletes true config previous newId used db paths =
      .ok (db', used')) : db'.Sound := by
  induction paths generalizing db used with
  | nil =>
    cases hdb
    exact h
  | cons path paths ih =>
    obtain ⟨db1, hstep, hdb⟩ := ok_of_bind hdb
    rw [reconcileDelete, if_pos rfl] at hstep
    exact ih (h.recordNewVersion (fun hkind : FileKind.tombstone = .directory => by cases hkind)
      hstep) hdb

end Database.Sound

section Reconcile

variable [ContentHash H]

omit [ContentHash H] in
theorem SnapshotEntry.Proper.size_eq_zero {entry : SnapshotEntry H} (h : entry.Proper)
    (hkind : entry.kind = .directory) : entry.size = 0 := by
  rw [SnapshotEntry.Proper] at h
  rw [SnapshotEntry.kind] at hkind
  split at hkind
  · cases hkind
  · rename_i hfile
    rwa [if_neg hfile] at h

/-- The records `Apply` writes for directories have no size. -/
theorem size_eq_zero_of_mem_upsertsBy {db : Database H} (h : db.Sound) (config : ReconcileConfig)
    (newId : Nat → VersionId) {used : Nat} {snapshot : List (SnapshotEntry H)}
    (hproper : ∀ entry ∈ snapshot, entry.Proper) {r : FileRecord H}
    (hr : r ∈ (upsertsBy config newId db.listFileRecords (isChanged db.listFileRecords) used
      snapshot).1) (hkind : r.kind = .directory) : r.size = 0 := by
  induction snapshot generalizing used with
  | nil => exact absurd hr List.not_mem_nil
  | cons entry snapshot ih =>
    have hrest := fun used => @ih used fun e he => hproper e (List.mem_cons_of_mem _ he)
    have hentry := hproper entry List.mem_cons_self
    cases hchanged : isChanged db.listFileRecords entry with
    | true =>
      rw [upsertsBy_changed hchanged] at hr
      rcases List.mem_cons.mp hr with rfl | hr
      · exact hentry.size_eq_zero hkind
      · exact hrest _ hr
    | false =>
      have hlookup := h.keyed.find?_listFileRecords entry.relativePath
      obtain ⟨record, hrecord, hsame⟩ : ∃ record, db.records.find entry.relativePath =
          some record ∧ Node.sameSnapshot entry record = true := by
        rw [isChanged, Bool.not_eq_false', hlookup, Option.any_eq_true] at hchanged
        exact hchanged
      rw [upsertsBy, hlookup, hrecord, hchanged] at hr
      dsimp only at hr
      split at hr
      · rcases List.mem_cons.mp hr with rfl | hr
        · exact (size_of_sameSnapshot hsame).trans ((h _ _ hrecord).2.2 hkind)
        · exact hrest _ hr
      · exact hrest _ hr

/-- `Apply` keeps the records sound. -/
theorem Database.Sound.reconcile {db db' : Database H} (h : db.Sound)
    {snapshot : List (SnapshotEntry H)}
    (hsnapshot : Merge.Sorted SnapshotEntry.relativePath snapshot)
    (hproper : ∀ entry ∈ snapshot, entry.Proper) {config : ReconcileConfig}
    {newId : Nat → VersionId} {used used' : Nat} {result : ReconcileResult}
    (hdb : VeritasSync.reconcile true db snapshot config newId used = .ok ((result, used'), db')) :
    db'.Sound := by
  obtain ⟨diff, db1, hdiff, hupserts, hdeletes⟩ := reconcile_eq_ok hdb
  rw [diffManifest_eq hsnapshot h.keyed.sorted (h.compare hproper)] at hdiff
  cases hdiff
  rw [upsertsOf_changed h.keyed hsnapshot] at hupserts
  exact (h.reconcileUpserts (fun r hr => size_eq_zero_of_mem_upsertsBy h config newId hproper hr)
    hupserts).reconcileDeletes hdeletes

end Reconcile

namespace Node

open Exec

/-- The records are sound, and the downloads are going to record sound ones. -/
structure Sound (n : Node H) : Prop where
  db : n.db.Sound
  downloads : ∀ d ∈ n.downloads, validEntry d.entry = true

namespace Sound

variable {n : Node H}

theorem spend (h : n.Sound) : n.spend.Sound := { h with }

/-- Records and downloads are as they were. -/
theorem congr {n' : Node H} (h : n.Sound) (hrecords : n'.db.records = n.db.records)
    (hdownloads : n'.downloads = n.downloads) : n'.Sound where
  db := h.db.congr hrecords
  downloads d hd := h.downloads d (hdownloads ▸ hd)

end Sound

/-! ### Scans -/

/-- Creating a version and storing a record under it. -/
theorem sound_store {parent : Option VersionId} {path : Path}
    (record : VersionId × Nat → Node H → FileRecord H)
    (hsize : ∀ version n, (record version n).kind = .directory → (record version n).size = 0) :
    Within (Keeps (Sound (H := H))) (do
      let version ← createVersion parent path
      let n ← Exec.state
      dbDo fun db => db.upsertFileRecord (record version n)) := by
  refine keeps_of_wp fun n h => ?_
  rw [wp_bind, createVersion, wp_bind]
  refine wp_dbGet h (fun _ _ => h.spend) fun clock db hdb => ?_
  have h1 : db.Sound := by
    obtain ⟨-, rfl⟩ := Database.advanceLogicalClock_eq_ok hdb
    exact h.db.congr rfl
  rw [wp_bind, wp_newUuidV4, wp_bind, wp_state, wp_bind]
  refine wp_dbDo ⟨h1, h.downloads⟩ (fun _ _ => ⟨h1, h.downloads⟩) fun db' hcreate => ?_
  have h2 : db'.Sound := by
    obtain ⟨-, lineage, hlineage, -⟩ := Database.recordCreation_eq_ok hcreate
    exact h1.congr (by rw [hlineage])
  rw [wp_pure, wp_bind, wp_state]
  refine wp_dbDo ⟨h2, h.downloads⟩ (fun _ _ => ⟨h2, h.downloads⟩) fun db'' hupsert => ?_
  exact ⟨h2.upsertFileRecord (hsize _ _) hupsert, h.downloads⟩

theorem sound_recordChange {previous : Option (FileRecord H)} {entry : SnapshotEntry H}
    (hentry : entry.Proper) : Within (Keeps (Sound (H := H))) (recordChange previous entry) :=
  sound_store (fun version n => changeRecord n.config entry version) fun _ _ => hentry.size_eq_zero

theorem sound_recordDeletion (record : FileRecord H) :
    Within (Keeps (Sound (H := H))) (recordDeletion record) :=
  sound_store (fun version n => Database.tombstoneRecord n.config.taskId record.relativePath
    version.1 n.config.deviceId version.2 n.nowMs)
    fun _ _ (hkind : FileKind.tombstone = .directory) => by cases hkind

variable [ContentHash H]

theorem sound_refreshEntries (known : List (FileRecord H)) {snapshot : List (SnapshotEntry H)}
    (hproper : ∀ entry ∈ snapshot, entry.Proper) :
    Within (Keeps (Sound (H := H))) (refreshEntries known snapshot) := by
  induction snapshot generalizing known with
  | nil => exact within_pure _
  | cons entry snapshot ih =>
    exact within_bind (within_when fun _ => sound_recordChange (hproper entry List.mem_cons_self))
      fun _ => ih _ fun e he => hproper e (List.mem_cons_of_mem _ he)

omit [ContentHash H] in
theorem sound_refreshDeletions (snapshot : List (SnapshotEntry H)) (known : List (FileRecord H)) :
    Within (Keeps (Sound (H := H))) (refreshDeletions snapshot known) := by
  induction known generalizing snapshot with
  | nil => exact within_pure _
  | cons record known ih =>
    exact within_bind (within_when fun _ => sound_recordDeletion record) fun _ => ih _

/-- The entries of a scan are proper. -/
theorem proper_snapshotEntry (mtime : Path → Int) (p : Path) (node : FsNode) :
    (Folder.snapshotEntry mtime p node : SnapshotEntry H).Proper := by
  cases node with
  | file content => rfl
  | directory => rfl

theorem proper_of_localSnapshot {n : Node H} {snapshot : List (SnapshotEntry H)}
    (h : n.localSnapshot = .ok snapshot) : ∀ entry ∈ snapshot, entry.Proper := by
  obtain ⟨rules, -, -, hmem⟩ := localSnapshot_eq_ok h
  intro entry hentry
  obtain ⟨p, node, -, -, -, rfl⟩ := (hmem entry).mp hentry
  exact proper_snapshotEntry _ p node

omit [ContentHash H] in
theorem sound_sendManifest : Within (Keeps (Sound (H := H))) (sendManifest (H := H)) := by
  refine keeps_of_wp fun n h => ?_
  rw [sendManifest, wp_bind, wp_state]
  refine wp_ite (fun _ => h) fun _ => ?_
  rw [wp_bind, wp_update, wp_bind]
  refine wp_check (fun _ _ => { h with }) fun rules _ => ?_
  rw [wp_bind]
  refine wp_check (fun _ _ => { h with }) fun entries _ => ?_
  rw [wp_bind]
  refine wp_check (fun _ _ => { h with }) fun _ _ => ?_
  rw [wp_bind, wp_send, wp_update]
  exact { h with }

theorem sound_refreshLocal : Within (Keeps (Sound (H := H))) (refreshLocal (H := H)) := by
  refine keeps_of_wp fun n h => ?_
  rw [refreshLocal, wp_bind, wp_state]
  refine wp_ite (fun _ => h) fun _ => ?_
  rw [wp_bind]
  refine wp_check (fun _ _ => h) fun hash _ => wp_ite (fun _ => { h with }) fun _ => ?_
  rw [wp_bind]
  refine wp_check (fun _ _ => h) fun snapshot hsnapshot => ?_
  have hproper := proper_of_localSnapshot hsnapshot
  rw [wp_bind]
  refine wp_mono (wp_of (sound_refreshEntries _ hproper n h)) (fun _ n' h' => ?_) fun _ _ h' => h'
  rw [wp_bind]
  refine wp_mono (wp_of (sound_refreshDeletions _ _ n' h')) (fun _ n'' h'' => ?_) fun _ _ h' => h'
  rw [wp_bind, wp_update]
  have hsources : Sound { n'' with sourceFiles := sourceFilesOf snapshot } := { h'' with }
  exact wp_when (fun _ => wp_of (sound_sendManifest _ hsources)) fun _ => hsources

theorem sound_performScan : Within (Keeps (Sound (H := H))) (performScan (H := H)) := by
  refine keeps_of_wp fun n h => ?_
  rw [performScan, wp_bind]
  refine wp_check (fun _ _ => h) fun hash _ => ?_
  rw [wp_bind]
  refine wp_check (fun _ _ => h) fun snapshot hsnapshot => ?_
  obtain ⟨-, -, hsorted, -⟩ := localSnapshot_eq_ok hsnapshot
  rw [wp_bind, wp_state]
  refine wp_ite (fun _ => h) fun _ => wp_ite (fun _ => h) fun _ => ?_
  rw [wp_bind]
  refine wp_dbGet h (fun _ _ => h.spend) fun r db hdb => ?_
  exact ⟨h.db.reconcile hsorted (proper_of_localSnapshot hsnapshot) hdb, h.downloads⟩

theorem sound_scanTask (deviceId : DeviceId) :
    Within (Keeps (Sound (H := H))) (scanTask (H := H) deviceId) := by
  refine keeps_of_wp fun n h => ?_
  rw [scanTask, wp_bind, wp_state, wp_bind]
  refine wp_check (fun _ _ => h) fun rules _ => ?_
  rw [wp_bind]
  refine wp_check (fun _ _ => h) fun snapshot hsnapshot => ?_
  have hsorted := Folder.sorted_scanEntries n.folder.sorted_listed hsnapshot
  have hproper : ∀ entry ∈ snapshot, entry.Proper := by
    intro entry hentry
    obtain ⟨p, node, -, -, rfl⟩ := (Folder.mem_scanEntries hsnapshot).mp hentry
    exact proper_snapshotEntry _ p node
  rw [wp_bind]
  refine wp_dbGet h (fun _ _ => h.spend) fun r db hdb => ?_
  exact ⟨h.db.reconcile hsorted hproper hdb, h.downloads⟩

/-! ### Everything else a node does -/

omit [ContentHash H] in
/-- Sessions and part files do not matter. -/
theorem transferMoves_sound : TransferMoves (Keeps (Sound (H := H))) where
  spend _ h := h.spend
  uuid _ h := { h with }
  transferId _ h := { h with }
  conflict _ _ h := h.congr rfl rfl
  transfers _ _ h := h.congr rfl rfl
  tree _ _ _ h := { h with }
  sources _ _ h := { h with }
  uploads _ _ h := { h with }
  downloads _ _ hl h := by
    refine { h with downloads := fun d hd => ?_ }
    obtain ⟨d', hd', hgoal⟩ := hl d hd
    rw [hgoal.entry]
    exact h.downloads d' hd'
  preserved _ _ h := { h with }
  send _ _ _ h := { h with }

omit [ContentHash H] in
/-- An entry of a manifest that was decoded has a size only if it is a file. -/
theorem size_eq_zero_of_validEntry {entry : VersionedManifestEntry H}
    (h : validEntry entry = true) (hkind : entry.kind = .directory) : entry.size = 0 := by
  simp only [validEntry, Bool.and_eq_true] at h
  simpa [hkind] using h.1.2

omit [ContentHash H] in
/-- What is recorded for an entry is sound. -/
theorem entryMoves_sound {entry : VersionedManifestEntry H} (hentry : validEntry entry = true) :
    EntryMoves (Keeps (Sound (H := H))) entry where
  toTransferMoves := transferMoves_sound
  upsert n record hrecord hvalid h := by
    obtain ⟨-, -, hkind, hsize, -⟩ := toRecord_eq_ok hrecord
    refine { h with db := h.db.insert hvalid fun hdirectory => ?_ }
    rw [hsize]
    exact size_eq_zero_of_validEntry hentry (hkind ▸ hdirectory)
  begin n d hd _ h := by
    refine { h with downloads := fun d' hd' => ?_ }
    rcases List.mem_append.mp hd' with hd' | hd'
    · exact h.downloads d' hd'
    · rw [List.mem_singleton.mp hd', hd]
      exact hentry

omit [ContentHash H] in
theorem sound_observeEntry (entry : VersionedManifestEntry H) (remote : FileRecord H) :
    Within (Keeps (Sound (H := H))) (observeEntry entry remote) := by
  refine within_bind (within_dbDo (fun _ h => h.spend) fun n db hdb h => ?_) fun _ => ?_
  · obtain ⟨-, -, -, lineage, rfl, -⟩ := Database.recordVersionLineage_eq_ok hdb
    exact h.congr rfl rfl
  · refine within_bind (within_dbGet (fun _ h => h.spend) fun n clock db hdb h => ?_) fun _ =>
      within_update fun n h => { h with }
    obtain ⟨-, rfl⟩ := Database.advanceLogicalClock_eq_ok hdb
    exact h.congr rfl rfl

theorem sound_applyManifest {manifest : VersionedManifest H}
    (hentries : ∀ entry ∈ manifest.entries, validEntry entry = true) :
    Within (Keeps (Sound (H := H))) (applyManifest manifest) := by
  refine within_bind (within_check _) fun _ => within_bind (within_update fun n h => { h with })
    fun _ => within_bind (within_check _) fun rules => within_bind (within_forM fun entry hentry =>
      within_bind (within_check _) fun _ => within_when fun _ => ?_) fun _ =>
        within_update fun n h => { h with }
  exact within_bind within_state fun _ => within_bind (within_check _) fun remote =>
    within_bind (sound_observeEntry entry remote) fun _ => within_bind (within_check _) fun loc =>
      within_bind (within_check _) fun resolution =>
        (entryMoves_sound (hentries entry hentry)).actOn remote loc resolution

theorem sound_acceptChunk (chunk : Chunk H) :
    Within (Keeps (Sound (H := H))) (acceptChunk chunk) := by
  intro n h
  rw [acceptChunk, bind_apply, state_apply]
  dsimp only
  cases hfind : n.downloads.find? (ownsChunk chunk) with
  | none => exact h
  | some download =>
    have hentry := h.downloads download (List.mem_of_find?_eq_some hfind)
    exact (entryMoves_sound hentry).acceptInto chunk rfl n h

theorem sound_receiveData (frame : Frame H) :
    Within (Keeps (Sound (H := H))) (receiveData frame) := by
  cases frame with
  | versionManifest manifest =>
    refine keeps_of_wp fun n h => ?_
    rw [receiveData, wp_bind]
    refine wp_check (fun _ _ => h) fun _ hcheck => wp_of (sound_applyManifest ?_ n h)
    intro entry hentry
    rw [checkManifest] at hcheck
    split at hcheck
    · cases hcheck
    · split at hcheck
      · rename_i hall
        exact List.all_eq_true.mp hall entry hentry
      · cases hcheck
  | fileRequest r => exact transferMoves_sound.handleFileRequest r
  | chunk c => exact within_ite (fun _ => within_raise _) fun _ => sound_acceptChunk c
  | cancel c => exact transferMoves_sound.handleCancel c
  | hello h => exact within_raise _
  | policy t m => exact within_raise _
  | unexpected c => exact within_raise _
  | malformed e => exact within_raise _
  | undecodable e => exact within_raise _

omit [ContentHash H] in
theorem sound_of_controlMove {n n' : Node H} (hmove : ControlMove n n') :
    Keeps Sound n n' := fun h =>
  h.congr (congrArg DataView.records hmove.data) (congrArg DataView.downloads hmove.data)

/-- **Every event keeps the records sound**, whatever frame it brings.  What a frame brings has
passed the codec, and what a scan finds has the shape of a snapshot. -/
theorem sound_perform {n : Node H} (h : n.Sound) (e : Event H) : (n.perform e).Sound := by
  have hcontrol : ∀ n n' : Node H, ControlMove n n' → Keeps Sound n n' :=
    fun _ _ => sound_of_controlMove
  cases e with
  | call env c =>
    have h' : Sound { n with env := env } := { h with }
    cases c with
    | start => exact within_start hcontrol sound_refreshLocal _ h'
    | refreshLocal => exact sound_refreshLocal _ h'
    | performScan => exact sound_performScan _ h'
    | pump => exact transferMoves_sound.pump hcontrol _ h'
    | propose expectedHash rules source =>
      exact sound_of_controlMove (controlMove_proposeIgnorePolicy _ _ _ _) h'
    | edit folder => exact { h' with }
    | fault k => exact { h' with }
  | receive env channel frame =>
    have h' : Sound { n with env := env } := { h with }
    exact within_receive hcontrol sound_refreshLocal sound_sendManifest channel frame
      (sound_receiveData frame) (fun _ h => { h with }) _ h'
  | restart => exact ⟨h.db, nofun⟩

/-- A node that can come about: a new one, after any calls, frames, crashes and scans by hand. -/
inductive Reached : Node H → Prop where
  | create (config : Config) (env : Environment) (uuid : Nat → Bytes)
      (transferId : Nat → TransferId) (folder : Folder) :
      Reached (create config env uuid transferId folder)
  | perform {n : Node H} (h : Reached n) (e : Event H) : Reached (n.perform e)
  | scanTask {n : Node H} (h : Reached n) (env : Environment) (deviceId : DeviceId) :
      Reached (scanTask deviceId { n with env := env }).2
  /-- The transport takes what was sent. -/
  | taken {n : Node H} (h : Reached n) : Reached { n with out := [] }

/-- **The records of a node are sound**, whatever has happened to it. -/
theorem sound_of_reached {n : Node H} (h : Reached n) : n.Sound := by
  induction h with
  | create config env uuid transferId folder => exact ⟨nofun, nofun⟩
  | perform _ e ih => exact sound_perform ih e
  | scanTask _ env deviceId ih =>
    have h' : Sound { ‹Node H› with env := env } := { ih with }
    exact sound_scanTask deviceId _ h'
  | taken _ ih => exact { ih with }

/-! ## The recorders agree -/

/-- The comparison loops of `RefreshLocal`. -/
def refreshLoops (snapshot : List (SnapshotEntry H)) : NodeM H Unit := do
  let n ← Exec.state
  refreshEntries n.db.listFileRecords snapshot
  refreshDeletions snapshot n.db.listFileRecords

/-- `SnapshotReconciler::Apply`, as the runtime calls it. -/
def applySnapshot (snapshot : List (SnapshotEntry H)) : NodeM H Unit := do
  let n ← Exec.state
  let (_, used) ← dbGet fun db =>
    reconcile true db snapshot ⟨n.config.taskId, n.config.deviceId, 0, n.nowMs⟩ n.uuid n.uuidsUsed
  Exec.update fun n => { n with uuidsUsed := used }

/-- Two runs from one node: both return, with alike databases and the same identifiers drawn, or
both throw, and then the second has recorded nothing. -/
structure RunsAgree (n : Node H) (run run' : Except Error Unit × Node H) : Prop where
  returns : run'.1 = .ok () ↔ run.1 = .ok ()
  alike : run.1 = .ok () → Alike n.db.records.find run.2.db run'.2.db
  used : run.1 = .ok () → run'.2.uuidsUsed = run.2.uuidsUsed
  undone : run.1 ≠ .ok () → run'.2.db = n.db ∧ run'.2.uuidsUsed = n.uuidsUsed

theorem applySnapshot_apply {n : Node H} (hfault : n.faultAfter = none)
    (snapshot : List (SnapshotEntry H)) :
    applySnapshot snapshot n =
      match reconcile true n.db snapshot ⟨n.config.taskId, n.config.deviceId, 0, n.nowMs⟩ n.uuid
        n.uuidsUsed with
      | .ok ((_, used), db) => (.ok (), { n with db := db, uuidsUsed := used })
      | .error e => (.error e, n) := by
  rw [applySnapshot, bind_apply, state_apply]
  dsimp only
  rw [bind_apply, dbGet_apply hfault]
  cases reconcile true n.db snapshot ⟨n.config.taskId, n.config.deviceId, 0, n.nowMs⟩ n.uuid
      n.uuidsUsed with
  | error e => rfl
  | ok r => rfl

/-- **The two recorders agree** on every reachable node, sorted snapshot and supply of fresh
identifiers. -/
theorem recorders_agree {n : Node H} (hn : Reached n) (hfault : n.faultAfter = none)
    {snapshot : List (SnapshotEntry H)}
    (hsnapshot : Merge.Sorted SnapshotEntry.relativePath snapshot)
    (hproper : ∀ entry ∈ snapshot, entry.Proper) (hfresh : FreshFrom n.uuid n.uuidsUsed n.db) :
    RunsAgree n (refreshLoops snapshot n) (applySnapshot snapshot n) := by
  have hsound := (sound_of_reached hn).db
  have hloops : Mints n (refreshLoops snapshot n) _ :=
    refreshLoops_mint hfault hsound.keyed.sorted hsnapshot
  have happly := reconcile_mint ⟨n.config.taskId, n.config.deviceId, 0, n.nowMs⟩ hsound
    hsnapshot hproper n.config.taskId_ne n.config.deviceId_ne n.env.nowMs.2 hfresh n.nowMs
  rw [applySnapshot_apply hfault]
  dsimp only at happly
  cases hmint : mint n.uuid n.uuidsUsed n.db
      (draftsOf n.config.taskId n.config.deviceId n.nowMs n.db.listFileRecords snapshot) with
  | error e =>
    rw [hmint] at hloops happly
    obtain ⟨e', n', hrun⟩ := hloops
    rw [hrun]
    cases hrec : reconcile true n.db snapshot ⟨n.config.taskId, n.config.deviceId, 0, n.nowMs⟩
        n.uuid n.uuidsUsed with
    | error e => exact ⟨⟨nofun, nofun⟩, nofun, nofun, fun _ => ⟨rfl, rfl⟩⟩
    | ok r =>
      rw [hrec] at happly
      exact happly.elim
  | ok r =>
    obtain ⟨db, used⟩ := r
    rw [hmint] at hloops happly
    rw [show refreshLoops snapshot n = _ from hloops]
    cases hrec : reconcile true n.db snapshot ⟨n.config.taskId, n.config.deviceId, 0, n.nowMs⟩
        n.uuid n.uuidsUsed with
    | error e =>
      rw [hrec] at happly
      exact happly.elim
    | ok r' =>
      rw [hrec] at happly
      exact ⟨⟨fun _ => rfl, fun _ => rfl⟩, fun _ => happly.1, fun _ => happly.2.symm,
        fun h => absurd rfl h⟩

/-- The entry of an empty file. -/
def emptyFileEntry (path : String) : SnapshotEntry Bytes := ⟨ascii path, true, 0, 0, some []⟩

/-- A new sample node over an empty folder. -/
def newSample : Node Bytes := Side.a.sample (.empty [])

theorem reached_newSample : Reached newSample := .create _ _ _ _ _

theorem freshFrom_newSample : FreshFrom newSample.uuid newSample.uuidsUsed newSample.db :=
  fun _ _ _ _ h => nomatch h

theorem proper_emptyFileEntry (path : String) : (emptyFileEntry path).Proper := rfl

/-- A folder with empty files. -/
def emptyFiles (names : List String) (hclosed : Tree.Closed
    (names.foldl (fun tree name => tree.insert (ascii name) (.file [])) OrdMap.empty)) : Folder :=
  .plain _ hclosed []

/-- A sample node that has recorded the files `a`, `b`, `c` and `e`, and then that `c` is gone. -/
def usedSample : Node Bytes :=
  newSample.perform (.call sampleEnvironment
      (.edit (emptyFiles ["a", "b", "c", "e"] (by decide +kernel)))) |>.perform
    (.call sampleEnvironment .performScan) |>.perform
    (.call sampleEnvironment (.edit (emptyFiles ["a", "b", "e"] (by decide +kernel)))) |>.perform
    (.call sampleEnvironment .performScan)

theorem reached_usedSample : Reached usedSample :=
  reached_newSample.perform _ |>.perform _ |>.perform _ |>.perform _

theorem freshFrom_usedSample : FreshFrom usedSample.uuid usedSample.uuidsUsed usedSample.db := by
  have huuid : usedSample.uuid = newSample.uuid := by
    have hid : usedSample.identity = newSample.identity := by
      rw [usedSample, identity_perform, identity_perform, identity_perform, identity_perform]
    exact congrArg Prod.snd hid
  have hshort : ∀ e ∈ usedSample.db.records.entries,
      e.2.versionId.length ≤ usedSample.uuidsUsed := by decide +kernel
  intro i hi p r hr heq
  have hlength := hshort (p, r) (OrdMap.find_eq_some_iff.mp hr)
  rw [heq, huuid] at hlength
  have huuidLength : (newSample.uuid i).length = i + 1 := by
    show (Side.a.deviceId ++ List.replicate i '0'.toUInt8).length = i + 1
    rw [List.length_append, List.length_replicate, Nat.add_comm]
    rfl
  omega

/-- What a scan finds then: `a` has been written, `b` is gone, `c` is back, and `d` is new. -/
def changedSnapshot : List (SnapshotEntry Bytes) :=
  [⟨ascii "a", true, 1, 5, some [7]⟩, emptyFileEntry "c", emptyFileEntry "d", emptyFileEntry "e"]

/-- The paths that a database has new versions of, and whether they are gone. -/
def newVersions (before after : Database Bytes) : List (Path × Bool) :=
  (after.records.entries.filter fun e =>
    (before.records.find e.1).map FileRecord.versionId ≠ some e.2.versionId).map fun e =>
      (e.1, decide (e.2.kind = .tombstone))

/-- Both record the changed, the vanished, the revived and the new file, and leave the one that is
as it was. -/
theorem recorders_agree_sample :
    RunsAgree usedSample (refreshLoops changedSnapshot usedSample)
      (applySnapshot changedSnapshot usedSample) ∧
    newVersions usedSample.db (refreshLoops changedSnapshot usedSample).2.db =
      [(ascii "a", false), (ascii "b", true), (ascii "c", false), (ascii "d", false)] ∧
    newVersions usedSample.db (applySnapshot changedSnapshot usedSample).2.db =
      [(ascii "a", false), (ascii "b", true), (ascii "c", false), (ascii "d", false)] := by
  have hsorted : Merge.Sorted SnapshotEntry.relativePath changedSnapshot := by
    rw [Merge.Sorted]
    decide +kernel
  have hproper : ∀ entry ∈ changedSnapshot, entry.Proper := by
    simp only [changedSnapshot, List.forall_mem_cons]
    exact ⟨rfl, rfl, rfl, rfl, fun _ h => absurd h List.not_mem_nil⟩
  exact ⟨recorders_agree reached_usedSample (by decide +kernel) hsorted hproper
    freshFrom_usedSample,
    by decide +kernel, by decide +kernel⟩

/-- A name the database refuses stops both, but `RefreshLocal` keeps the record of `a` and its
clock, where `Apply` takes everything back. -/
theorem recorders_differ_on_refused_name :
    Reached newSample ∧ FreshFrom newSample.uuid newSample.uuidsUsed newSample.db ∧
    Merge.Sorted SnapshotEntry.relativePath [emptyFileEntry "a", emptyFileEntry "b:c"] ∧
    (∀ entry ∈ [emptyFileEntry "a", emptyFileEntry "b:c"], entry.Proper) ∧
    ((refreshLoops [emptyFileEntry "a", emptyFileEntry "b:c"] newSample).2.db.records.find
      (ascii "a")).isSome = true ∧
    ((applySnapshot [emptyFileEntry "a", emptyFileEntry "b:c"] newSample).2.db.records.find
      (ascii "a")).isSome = false ∧
    (refreshLoops [emptyFileEntry "a", emptyFileEntry "b:c"] newSample).2.db.logicalClock = 2 ∧
    (applySnapshot [emptyFileEntry "a", emptyFileEntry "b:c"] newSample).2.db.logicalClock = 0 := by
  have hsorted : Merge.Sorted SnapshotEntry.relativePath
      [emptyFileEntry "a", emptyFileEntry "b:c"] := List.pairwise_pair.mpr (by decide +kernel)
  have hproper : ∀ entry ∈ [emptyFileEntry "a", emptyFileEntry "b:c"], entry.Proper := by
    intro entry hentry
    rcases List.mem_pair.mp hentry with rfl | rfl
    · exact proper_emptyFileEntry _
    · exact proper_emptyFileEntry _
  refine ⟨reached_newSample, freshFrom_newSample, hsorted, hproper, ?_, ?_, ?_, ?_⟩
  · decide +kernel
  · decide +kernel
  · decide +kernel
  · decide +kernel

end Node

end VeritasSync
