import VeritasSync.Sync.Tombstones
import VeritasSync.Sync.World

/-!
# What `DiffManifest` returns, for inputs in any order

`Apply` hands `DiffManifest` two sorted lists, but the function takes them in any order: a list that
is not sorted is walked through a sorted list of pointers, and a path that occurs twice is refused.

`diffOf_diffEntries` has what the walk over two sorted lists finds.  What is missing is that the
walk cannot throw when the files of the snapshot have hashes, that the deleted paths come out in
order, and that the order of the inputs makes no difference.

## What is here

* `orderedEntries_eq_error_iff`, `orderedEntries_perm` — when the indirection throws, and that it
  does not depend on the order.
* `diffEntries_isOk`, `deletedPaths_sublist` — what the walk adds to `DiffOf`.
* `diffManifest_spec` — **the two lists of a diff, and when there is none**.

A snapshot comes from a walk and the records come from a table, and both are in path order, so in
this program the indirection is never needed.  It is part of the function all the same.  The
specification is therefore about any two lists, and the case that the program uses is one of them.
-/

set_option autoImplicit false

namespace VeritasSync

/-! ## The indirection -/

section Ordered

variable {α : Type} {path : α → Path} {l l' ordered : List α}

theorem orderedEntries_eq_ok (h : orderedEntries path l = .ok ordered) :
    Merge.Sorted path ordered ∧ ordered.Perm l := by
  rw [orderedEntries] at h
  split at h
  · rename_i hnodup
    cases h
    refine ⟨Merge.Sorted.of_le ?_ hnodup, List.perm_insertionSort _ l⟩
    exact List.pairwise_insertionSort (fun a b => path a ≤ path b) l
  · cases h

/-- The indirection throws exactly for a path that occurs twice. -/
theorem orderedEntries_eq_error_iff :
    (∃ e, orderedEntries path l = .error e) ↔ ¬ (l.map path).Nodup := by
  have hperm := (List.perm_insertionSort (fun a b => path a ≤ path b) l).map path
  rw [← hperm.nodup_iff, orderedEntries]
  split
  · rename_i hnodup
    exact ⟨by rintro ⟨_, ⟨⟩⟩, fun hnot => absurd hnodup hnot⟩
  · rename_i hnodup
    exact ⟨fun _ => hnodup, fun _ => ⟨_, rfl⟩⟩

/-- The order of the entries makes no difference. -/
theorem orderedEntries_perm (h : l'.Perm l) : orderedEntries path l' = orderedEntries path l := by
  cases hl : orderedEntries path l with
  | error e =>
    have hnodup := orderedEntries_eq_error_iff.mp ⟨e, hl⟩
    rw [← (h.map path).nodup_iff] at hnodup
    rw [orderedEntries] at hl ⊢
    rw [if_neg (by
      rwa [((List.perm_insertionSort (fun a b => path a ≤ path b) l').map path).nodup_iff])]
    split at hl
    · cases hl
    · exact hl
  | ok ordered =>
    obtain ⟨hsorted, hperm⟩ := orderedEntries_eq_ok hl
    cases hl' : orderedEntries path l' with
    | error e =>
      have hnodup := orderedEntries_eq_error_iff.mp ⟨e, hl'⟩
      rw [(h.map path).nodup_iff] at hnodup
      obtain ⟨e', herror⟩ := orderedEntries_eq_error_iff.mpr hnodup
      cases hl.symm.trans herror
    | ok ordered' =>
      obtain ⟨hsorted', hperm'⟩ := orderedEntries_eq_ok hl'
      rw [hsorted'.eq_of_perm hsorted ((hperm'.trans h).trans hperm.symm)]

end Ordered

/-! ## The walk

Two indices, one step at a time: the smaller of the two paths is handled and its index moves on.
Equal paths are compared, and the files among them by size and hash. -/

section Walk

variable {H : Type} [ContentHash H] {entry : SnapshotEntry H} {record : FileRecord H}
  {snapshot : List (SnapshotEntry H)} {known : List (FileRecord H)} {diff : ManifestDiff H}

/-- The record is a live one of what the entry describes: of the same kind, and for a file with the
same size and hash. -/
def Describes (record : FileRecord H) (entry : SnapshotEntry H) : Prop :=
  record.kind = entry.kind ∧
    (entry.isFile = true → record.size = entry.size ∧ record.contentHash = entry.contentHash)

/-- The files of a snapshot carry hashes. -/
def Hashed (snapshot : List (SnapshotEntry H)) : Prop :=
  ∀ entry ∈ snapshot, entry.isFile = true → entry.contentHash.isSome = true

/-- A comparison with a live record returns, and says whether the record describes the entry. -/
theorem isSameContent_eq_ok (record : FileRecord H)
    (hhash : entry.isFile = true → entry.contentHash.isSome = true) :
    ∃ same, isSameContent entry record = .ok same ∧ (same = true ↔ Describes record entry) := by
  rw [isSameContent, Describes, SnapshotEntry.kind]
  cases hfile : entry.isFile with
  | true =>
    obtain ⟨hash, hcontent⟩ := Option.isSome_iff_exists.mp (hhash hfile)
    rw [hcontent]
    by_cases hkind : record.kind = .file
    · simp [hkind, eq_comm (a := entry.size)]
    · simp [hkind]
  | false =>
    by_cases hkind : record.kind = .file
    · simp [hkind]
    · simp [hkind]

/-- The walk throws nothing of its own. -/
theorem diffEntries_isOk (fuel : Nat) (hhash : Hashed snapshot) :
    ∃ diff, diffEntries fuel snapshot known = .ok diff := by
  fun_induction diffEntries fuel snapshot known with
  | case1 => exact ⟨_, rfl⟩
  | case2 => exact ⟨_, rfl⟩
  | case3 => exact ⟨_, rfl⟩
  | case4 fuel entry scanned record known hlt ih =>
    obtain ⟨diff, hdiff⟩ := ih fun e he => hhash e (List.mem_cons_of_mem _ he)
    exact ⟨_, by rw [hdiff]; rfl⟩
  | case5 fuel entry scanned record known hlt hgt ih =>
    obtain ⟨diff, hdiff⟩ := ih hhash
    exact ⟨_, by rw [hdiff]; rfl⟩
  | case6 fuel entry scanned record known hlt hgt jp htombstone ih =>
    obtain ⟨diff, hdiff⟩ := ih fun e he => hhash e (List.mem_cons_of_mem _ he)
    show ∃ d, (diffEntries fuel scanned known >>= fun diff => pure (if false = true then diff
      else { diff with createdOrChanged := entry :: diff.createdOrChanged })) = .ok d
    rw [hdiff]
    exact ⟨_, rfl⟩
  | case7 fuel entry scanned record known hlt hgt jp hlive ih =>
    obtain ⟨diff, hdiff⟩ := ih fun e he => hhash e (List.mem_cons_of_mem _ he)
    obtain ⟨same, hsame, -⟩ := isSameContent_eq_ok record (hhash entry List.mem_cons_self)
    show ∃ d, (isSameContent entry record >>= fun same => diffEntries fuel scanned known >>=
      fun diff => pure (if same = true then diff
        else { diff with createdOrChanged := entry :: diff.createdOrChanged })) = .ok d
    rw [hsame, hdiff]
    exact ⟨_, rfl⟩

/-- The deleted paths come in the order of the records. -/
theorem deletedPaths_sublist {fuel : Nat} (h : diffEntries fuel snapshot known = .ok diff) :
    diff.deletedPaths.Sublist (known.map FileRecord.relativePath) := by
  fun_induction diffEntries fuel snapshot known generalizing diff with
  | case1 =>
    cases h
    exact List.nil_sublist _
  | case2 =>
    cases h
    exact List.filter_sublist.map _
  | case3 =>
    cases h
    exact List.nil_sublist _
  | case4 fuel entry scanned record known hlt ih =>
    obtain ⟨rest, hrest, h⟩ := ok_of_bind h
    cases h
    exact (ih hrest :)
  | case5 fuel entry scanned record known hlt hgt ih =>
    obtain ⟨rest, hrest, h⟩ := ok_of_bind h
    cases h
    split
    · exact (ih hrest).cons_cons _
    · exact (ih hrest).cons _
  | case6 fuel entry scanned record known hlt hgt jp htombstone =>
    rename_i ih
    obtain ⟨same, hsame, h⟩ := ok_of_bind h
    obtain ⟨rest, hrest, h⟩ := ok_of_bind h
    cases hsame
    cases h
    exact (ih hrest).cons _
  | case7 fuel entry scanned record known hlt hgt jp hlive =>
    rename_i ih
    obtain ⟨same, hsame, h⟩ := ok_of_bind h
    obtain ⟨rest, hrest, h⟩ := ok_of_bind h
    cases h
    cases same with
    | true => exact (ih hrest).cons _
    | false => exact (ih hrest).cons _

/-! ## Its specification -/

/-- What a diff is of a snapshot and a list of records: the entries of the snapshot that no live
record describes and the paths of the live records that the snapshot does not have, each in strict
order, and none in both. -/
structure IsDiff (snapshot : List (SnapshotEntry H)) (known : List (FileRecord H))
    (diff : ManifestDiff H) : Prop where
  changed : ∀ entry, entry ∈ diff.createdOrChanged ↔ entry ∈ snapshot ∧
    ¬ ∃ record ∈ known, record.relativePath = entry.relativePath ∧ Describes record entry
  deleted : ∀ p, p ∈ diff.deletedPaths ↔
    (∃ record ∈ known, record.relativePath = p ∧ record.kind ≠ .tombstone) ∧
      ∀ entry ∈ snapshot, entry.relativePath ≠ p
  changed_sorted : Merge.Sorted SnapshotEntry.relativePath diff.createdOrChanged
  deleted_sorted : diff.deletedPaths.Pairwise (· < ·)
  disjoint : (diff.createdOrChanged.map SnapshotEntry.relativePath).Disjoint diff.deletedPaths

theorem isDiff_diffEntries {scanned : List (SnapshotEntry H)} {records : List (FileRecord H)}
    (hhash : Hashed snapshot) (hscanned : scanned.Perm snapshot) (hrecords : records.Perm known)
    (hsorted : Merge.Sorted SnapshotEntry.relativePath scanned)
    (hsorted' : Merge.Sorted FileRecord.relativePath records)
    (h : diffEntries (scanned.length + records.length) scanned records = .ok diff) :
    IsDiff snapshot known diff := by
  have hdiff := Node.diffOf_diffEntries le_rfl hsorted hsorted' h
  have hchanged : ∀ entry, entry ∈ diff.createdOrChanged ↔ entry ∈ snapshot ∧
      ¬ ∃ record ∈ known, record.relativePath = entry.relativePath ∧ Describes record entry := by
    intro entry
    rw [hdiff.changed, hscanned.mem_iff]
    refine and_congr_right fun hentry => ?_
    push Not
    refine forall_congr' fun record => ?_
    rw [hrecords.mem_iff]
    refine forall_congr' fun _ => forall_congr' fun _ => ?_
    obtain ⟨same, hsame, hiff⟩ := isSameContent_eq_ok record (hhash entry hentry)
    rw [hsame, ← hiff]
    constructor
    · rintro (htombstone | hne) rfl
      · exact Node.kind_ne_tombstone entry ((hiff.mp rfl).1.symm.trans htombstone)
      · exact hne rfl
    · exact fun hne => .inr fun heq => hne (Except.ok.inj heq)
  have hdeleted : ∀ p, p ∈ diff.deletedPaths ↔
      (∃ record ∈ known, record.relativePath = p ∧ record.kind ≠ .tombstone) ∧
        ∀ entry ∈ snapshot, entry.relativePath ≠ p := by
    intro p
    rw [hdiff.deleted]
    constructor
    · rintro ⟨record, hrecord, hpath, hlive, hgone⟩
      exact ⟨⟨record, hrecords.mem_iff.mp hrecord, hpath, hlive⟩,
        fun entry hentry => hgone entry (hscanned.mem_iff.mpr hentry)⟩
    · rintro ⟨⟨record, hrecord, hpath, hlive⟩, hgone⟩
      exact ⟨record, hrecords.mem_iff.mpr hrecord, hpath, hlive,
        fun entry hentry => hgone entry (hscanned.mem_iff.mp hentry)⟩
  refine ⟨hchanged, hdeleted, hsorted.sublist hdiff.sublist, ?_, ?_⟩
  · exact (List.pairwise_map.mpr hsorted').sublist (deletedPaths_sublist h)
  · intro p hp hp'
    obtain ⟨entry, hentry, rfl⟩ := List.mem_map.mp hp
    exact ((hdeleted _).mp hp').2 entry ((hchanged entry).mp hentry).1 rfl

end Walk

/-- **`DiffManifest`**: for a snapshot whose files carry hashes and any list of records, both in any
order, it throws exactly if a path occurs twice in one of them, it returns their diff otherwise, and
the order makes no difference. -/
theorem diffManifest_spec {H : Type} [ContentHash H] (snapshot : List (SnapshotEntry H))
    (known : List (FileRecord H)) (hhash : Hashed snapshot) :
    ((∃ e, diffManifest snapshot known = .error e) ↔
      ¬ (snapshot.map SnapshotEntry.relativePath).Nodup ∨
        ¬ (known.map FileRecord.relativePath).Nodup) ∧
    (∀ diff, diffManifest snapshot known = .ok diff → IsDiff snapshot known diff) ∧
    ∀ snapshot' known', snapshot'.Perm snapshot → known'.Perm known →
      diffManifest snapshot' known' = diffManifest snapshot known := by
  refine ⟨?_, fun diff hdiff => ?_, fun snapshot' known' hsnapshot hknown => ?_⟩
  · rw [← orderedEntries_eq_error_iff, ← orderedEntries_eq_error_iff, diffManifest]
    cases hscanned : orderedEntries SnapshotEntry.relativePath snapshot with
    | error e => exact ⟨fun _ => .inl ⟨e, rfl⟩, fun _ => ⟨e, rfl⟩⟩
    | ok scanned =>
      cases hrecords : orderedEntries FileRecord.relativePath known with
      | error e => exact ⟨fun _ => .inr ⟨e, rfl⟩, fun _ => ⟨e, rfl⟩⟩
      | ok records =>
        have hscanned' : Hashed scanned := fun entry hentry =>
          hhash entry ((orderedEntries_eq_ok hscanned).2.mem_iff.mp hentry)
        obtain ⟨diff, hdiff⟩ : ∃ diff,
            diffEntries (scanned.length + records.length) scanned records = .ok diff :=
          diffEntries_isOk _ hscanned'
        constructor
        · rintro ⟨e, he⟩
          cases hdiff.symm.trans he
        · rintro (⟨e, he⟩ | ⟨e, he⟩)
          · cases he
          · cases he
  · obtain ⟨scanned, hscanned, h⟩ := ok_of_bind hdiff
    obtain ⟨records, hrecords, h⟩ := ok_of_bind h
    obtain ⟨hsorted, hperm⟩ := orderedEntries_eq_ok hscanned
    obtain ⟨hsorted', hperm'⟩ := orderedEntries_eq_ok hrecords
    exact isDiff_diffEntries hhash hperm hperm' hsorted hsorted' h
  · rw [diffManifest, diffManifest, orderedEntries_perm hsnapshot, orderedEntries_perm hknown]

/-- A snapshot in the wrong order: a file, and the directory it is in. -/
def disorderedSnapshot : List (SnapshotEntry Bytes) :=
  [⟨ascii "d/f", true, 1, 0, some [1]⟩, ⟨ascii "d", false, 0, 0, none⟩]

/-- The directory is known, and a file that is gone. -/
def disorderedRecords : List (FileRecord Bytes) :=
  [⟨[1], ascii "g", .file, 1, 0, some [2], [2], [1], 1, none⟩,
    ⟨[1], ascii "d", .directory, 0, 0, none, [3], [1], 1, none⟩]

theorem diffManifest_spec_disordered : IsDiff disorderedSnapshot disorderedRecords
    ⟨[⟨ascii "d/f", true, 1, 0, some [1]⟩], [ascii "g"]⟩ :=
  (diffManifest_spec disorderedSnapshot disorderedRecords
    (by simp [Hashed, disorderedSnapshot])).2.1 _ rfl

end VeritasSync
