import VeritasSync.Storage.Exceptions
import VeritasSync.Sync.OneWay
import VeritasSync.Sync.Receive

/-!
# The chunk accounts of downloads

Both kinds of node keep the same books on a download.  The receiver has a bitmap of the chunks it
has written and the sum of their sizes; the node has the list of the chunks written since it last
marked any, and the number of those marked before; the marks themselves are in the database.  A
`Batch` is what a download consists of in either node, and a `ChunkLedger` is the batches of a node
beside its `transfers` table.

`Accounted` says what the books of one batch have to do with the table, and `ChunkLedger.Accounts`
that they are right for all of them.  The operations of the two nodes are the same on the ledger: a
chunk is accepted, the dirty chunks are marked, the transfer is finished, a transfer is created.

## What is here

* `sum_chunkLength_le` — chunks of a file, each counted once, are no longer than the file.
* `Accounted.full_iff` — the counters reach the number of chunks when every chunk is accepted.
* `ChunkLedger.Accounts.accept`, `.persist`, `.finish`, `.create`, `.begin` — what keeps the books
  right.

Why a ledger: the two nodes have different states, and the transfers are rows in a database that has
much else in it.  A ledger is what is left of either when everything is removed that the accounts do
not depend on.  It is a list of batches and a table, and the operations on it are functions that one
can compute with.
-/

set_option autoImplicit false

namespace VeritasSync

/-! ## The sizes of chunks -/

theorem sum_chunkLength_range (size k : Nat) :
    ((List.range k).map (chunkLength size)).sum = min size (k * logicalChunkSize) := by
  induction k with
  | zero => simp
  | succ k ih =>
    rw [List.range_succ, List.map_append, List.sum_append, ih, List.map_singleton,
      List.sum_singleton, chunkLength, Nat.succ_mul]
    split <;> omega

/-- **Chunks of a file, each counted once, are no longer than the file.**  The last chunk may be
shorter, which is why this is not a product. -/
theorem sum_chunkLength_le {size : Nat} {l : List Nat} (hnodup : l.Nodup)
    (hlt : ∀ i ∈ l, i < chunkCount size) : (l.map (chunkLength size)).sum ≤ size := by
  have hsub : l.Subperm (List.range (chunkCount size)) :=
    List.subperm_of_subset hnodup fun i hi => List.mem_range.mpr (hlt i hi)
  obtain ⟨l', hperm, hsublist⟩ := hsub
  calc (l.map (chunkLength size)).sum
      = (l'.map (chunkLength size)).sum := ((hperm.map _).sum_eq).symm
    _ ≤ ((List.range (chunkCount size)).map (chunkLength size)).sum :=
        (hsublist.map _).sum_le_sum fun _ _ => Nat.zero_le _
    _ ≤ size := by
        rw [sum_chunkLength_range]
        exact min_le_left _ _

theorem durableBytes_eq {size : Nat} {completed : List Nat}
    (hlt : ∀ i ∈ completed, i < chunkCount size) :
    DownloadReceiver.durableBytes size completed = (completed.map (chunkLength size)).sum := by
  refine congrArg List.sum (List.map_congr_left fun i hi => ?_)
  rw [chunkLength, if_pos]
  rw [← Chunks.lt_count_iff logicalChunkSize_pos, ← chunkCount_eq]
  exact hlt i hi

/-! ## Batches

The members of `ActiveDownload` in one node and of `Download` in the other are called alike and mean
the same.  A batch is what they have in common. -/

/-- What a node of either kind keeps of an active download. -/
structure Batch (H : Type) where
  path : Path
  hash : H
  transferId : TransferId
  chunkCount : Nat
  receiver : DownloadReceiver H
  durableChunks : Nat
  dirtyBytes : Nat
  dirtyChunks : List Nat
  deriving DecidableEq

variable {H : Type}

namespace Batch

/-- A batch once a chunk has been written. -/
def accept (b : Batch H) (index length : Nat) : Batch H :=
  { b with
    receiver := b.receiver.accept index length
    dirtyBytes := if index ∈ b.dirtyChunks then b.dirtyBytes else b.dirtyBytes + length
    dirtyChunks := if index ∈ b.dirtyChunks then b.dirtyChunks else b.dirtyChunks ++ [index] }

/-- A batch once its dirty chunks are durable. -/
def persisted (b : Batch H) : Batch H :=
  { b with
    durableChunks := b.durableChunks + b.dirtyChunks.length
    dirtyBytes := 0
    dirtyChunks := [] }

theorem accept_of_not_dirty {b : Batch H} {index : Nat} (h : index ∉ b.dirtyChunks)
    (length : Nat) :
    b.accept index length =
      { b with
        receiver := b.receiver.accept index length
        dirtyBytes := b.dirtyBytes + length
        dirtyChunks := b.dirtyChunks ++ [index] } := by
  rw [accept, if_neg h, if_neg h]

/-- Every chunk has been accepted. -/
def Full (b : Batch H) : Prop := ∀ i < b.chunkCount, i ∈ b.receiver.accepted

instance (b : Batch H) : Decidable b.Full := inferInstanceAs (Decidable (∀ _ < _, _))

end Batch

/-- A download of a one-way node. -/
def OneWay.Download.batch (d : OneWay.Download H) : Batch H :=
  ⟨d.entry.relativePath, d.hash, d.transferId, d.chunkCount, d.receiver, d.durableChunks,
    d.dirtyBytes, d.dirtyChunks⟩

/-- A download of a bidirectional node. -/
def ActiveDownload.batch (d : ActiveDownload H) : Batch H :=
  ⟨d.destinationPath, d.hash, d.transferId, d.chunkCount, d.receiver, d.durableChunks,
    d.dirtyBytes, d.dirtyChunks⟩

/-! ## Ledgers -/

/-- The batches of a node, beside the rows of its `transfers` table. -/
structure ChunkLedger (H : Type) where
  transfers : List (TransferRecord H)
  batches : List (Batch H)
  deriving DecidableEq

namespace ChunkLedger

/-- `Database::FindTransfer`: the first row with this identifier. -/
def row (l : ChunkLedger H) (id : TransferId) : Option (TransferRecord H) :=
  l.transfers.find? fun t => t.transferId = id

/-- `Database::CompletedTransferChunks`: the marks in the row of the transfer. -/
def marks (l : ChunkLedger H) (id : TransferId) : List Nat :=
  ((l.row id).map TransferRecord.completedChunks).getD []

/-- The state of a transfer. -/
def state (l : ChunkLedger H) (id : TransferId) : Option TransferState :=
  (l.row id).map TransferRecord.state

/-- The ledger with the row of a transfer rewritten. -/
def update (l : ChunkLedger H) (id : TransferId) (f : TransferRecord H → TransferRecord H) :
    ChunkLedger H :=
  { l with transfers := l.transfers.map fun t => if t.transferId = id then f t else t }

/-- A row with more chunks marked. -/
def markRow (indices : List Nat) (now : Int) (t : TransferRecord H) : TransferRecord H :=
  { t with
    completedChunks := indices.foldl (fun done i => Database.insertIndex i done) t.completedChunks
    updatedAtMs := now }

/-- A row whose transfer is completed. -/
def finishRow (now : Int) (t : TransferRecord H) : TransferRecord H :=
  { t with state := .completed, updatedAtMs := now }

/-- `Database::MarkTransferChunksCompleted`: the marks are added to the row. -/
def mark (l : ChunkLedger H) (id : TransferId) (indices : List Nat) (now : Int) : ChunkLedger H :=
  l.update id (markRow indices now)

/-- `Database::UpdateTransferState` to completed: from now on no download resumes the row. -/
def finish (l : ChunkLedger H) (id : TransferId) (now : Int) : ChunkLedger H :=
  l.update id (finishRow now)

/-- The ledger with other batches. -/
def withBatches (l : ChunkLedger H) (batches : List (Batch H)) : ChunkLedger H := { l with batches }

variable {l : ChunkLedger H} {id id' : TransferId}

theorem row_update {f : TransferRecord H → TransferRecord H}
    (hf : ∀ t, (f t).transferId = t.transferId) :
    (l.update id f).row id' = if id' = id then (l.row id').map f else l.row id' := by
  have hsame : ((fun t : TransferRecord H => decide (t.transferId = id')) ∘
      fun t => if t.transferId = id then f t else t) = fun t => decide (t.transferId = id') := by
    funext t
    rw [Function.comp]
    split
    · rw [hf]
    · rfl
  rw [row, update, List.find?_map, hsame, row]
  cases hfind : l.transfers.find? fun t => t.transferId = id' with
  | none => simp
  | some t =>
    have ht : t.transferId = id' := by simpa using List.find?_some hfind
    by_cases hid : id' = id
    · rw [if_pos hid, Option.map_some, if_pos (ht.trans hid), Option.map_some]
    · rw [if_neg hid, Option.map_some, if_neg (ht ▸ hid)]

theorem row_mark {indices : List Nat} {now : Int} :
    (l.mark id indices now).row id' =
      if id' = id then (l.row id').map (markRow indices now) else l.row id' :=
  row_update fun _ => rfl

theorem row_finish {now : Int} :
    (l.finish id now).row id' =
      if id' = id then (l.row id').map (finishRow now) else l.row id' :=
  row_update fun _ => rfl

theorem state_mark {indices : List Nat} {now : Int} :
    (l.mark id indices now).state id' = l.state id' := by
  rw [state, row_mark, state]
  split
  · rw [Option.map_map]
    rfl
  · rfl

theorem state_finish {now : Int} :
    (l.finish id now).state id' =
      if id' = id then (l.row id').map fun _ => .completed else l.state id' := by
  rw [state, row_finish]
  split
  · rw [Option.map_map]
    rfl
  · rfl

theorem marks_finish {now : Int} : (l.finish id now).marks id' = l.marks id' := by
  rw [marks, row_finish, marks]
  split
  · rw [Option.map_map]
    rfl
  · rfl

/-- The identifiers are a key of the table, and marks come in index order. -/
structure Kept (l : ChunkLedger H) : Prop where
  ids : (l.transfers.map TransferRecord.transferId).Nodup
  marks : ∀ t ∈ l.transfers, t.completedChunks.Pairwise (· < ·)

/-- An empty table has no row that could be wrong. -/
theorem kept_of_nil (h : l.transfers = []) : l.Kept := by
  constructor
  · rw [h]
    exact List.nodup_nil
  · rw [h]
    nofun

theorem Kept.row (h : l.Kept) {t : TransferRecord H} (ht : t ∈ l.transfers) :
    l.row t.transferId = some t := by
  rw [ChunkLedger.row]
  cases hfind : l.transfers.find? fun r => r.transferId = t.transferId with
  | none => exact absurd (decide_eq_true rfl) (List.find?_eq_none.mp hfind t ht)
  | some r =>
    have hr : r.transferId = t.transferId := by simpa using List.find?_some hfind
    exact congrArg some (List.inj_on_of_nodup_map h.ids (List.mem_of_find?_eq_some hfind) ht hr)

theorem Kept.pairwise_marks (h : l.Kept) (id : TransferId) : (l.marks id).Pairwise (· < ·) := by
  rw [ChunkLedger.marks]
  cases hrow : l.row id with
  | none => exact List.Pairwise.nil
  | some t => exact h.marks t (List.mem_of_find?_eq_some hrow)

theorem Kept.update (h : l.Kept) {f : TransferRecord H → TransferRecord H}
    (hf : ∀ t, (f t).transferId = t.transferId)
    (hmarks : ∀ t, t.completedChunks.Pairwise (· < ·) →
      (f t).completedChunks.Pairwise (· < ·)) : (l.update id f).Kept := by
  constructor
  · have hids : (l.update id f).transfers.map TransferRecord.transferId =
        l.transfers.map TransferRecord.transferId := by
      rw [ChunkLedger.update, List.map_map]
      refine List.map_congr_left fun t _ => ?_
      rw [Function.comp]
      split
      · exact hf t
      · rfl
    rw [hids]
    exact h.ids
  · intro t ht
    obtain ⟨r, hr, rfl⟩ := List.mem_map.mp ht
    split
    · exact hmarks r (h.marks r hr)
    · exact h.marks r hr

theorem Kept.mark (h : l.Kept) (id : TransferId) (indices : List Nat) (now : Int) :
    (l.mark id indices now).Kept :=
  h.update (fun _ => rfl) fun _ ht => (Database.foldl_insertIndex indices ht).1

theorem Kept.finish (h : l.Kept) (now : Int) : (l.finish id now).Kept :=
  h.update (fun _ => rfl) fun _ ht => ht

/-- The marks after marking more. -/
theorem Kept.mem_marks_mark (h : l.Kept) {t : TransferRecord H} (ht : l.row id = some t)
    (indices : List Nat) (now : Int) (i : Nat) :
    i ∈ (l.mark id indices now).marks id ↔ i ∈ indices ∨ i ∈ l.marks id := by
  have hsorted := h.pairwise_marks id
  rw [ChunkLedger.marks, ht] at hsorted
  rw [ChunkLedger.marks, row_mark, if_pos rfl, ht, ChunkLedger.marks, ht]
  exact (Database.foldl_insertIndex indices hsorted).2 i

end ChunkLedger

/-! ## The books of a batch

The invariant for one download.  Everything that the nodes later decide by a counter is decided
rightly because of it: the counter says that a file is complete exactly if every chunk is there. -/

/-- The books of a batch agree with the table. -/
structure Accounted (b : Batch H) (l : ChunkLedger H) : Prop where
  receiver_id : b.receiver.transferId = b.transferId
  receiver_count : b.receiver.chunkCount = b.chunkCount
  count_eq : b.chunkCount = chunkCount b.receiver.expectedSize
  row : ∃ t, l.row b.transferId = some t ∧ t.relativePath = b.path ∧ t.fileHash = b.hash
  accepted_nodup : b.receiver.accepted.Nodup
  accepted_lt : ∀ i ∈ b.receiver.accepted, i < b.chunkCount
  marked : ∀ i ∈ l.marks b.transferId, i ∈ b.receiver.accepted
  durable : b.durableChunks = (l.marks b.transferId).length
  dirty_nodup : b.dirtyChunks.Nodup
  mem_dirty : ∀ i, i ∈ b.dirtyChunks ↔ i ∈ b.receiver.accepted ∧ i ∉ l.marks b.transferId
  dirtyBytes : b.dirtyBytes = (b.dirtyChunks.map (chunkLength b.receiver.expectedSize)).sum
  received : b.receiver.receivedBytes =
    (b.receiver.accepted.map (chunkLength b.receiver.expectedSize)).sum

namespace Accounted

variable {b : Batch H} {l l' : ChunkLedger H}

/-- **The bytes received never exceed the size of the file.**  A progress bar that is computed from
it stays within its limits. -/
theorem receivedBytes_le (h : Accounted b l) :
    b.receiver.receivedBytes ≤ b.receiver.expectedSize := by
  rw [h.received]
  exact sum_chunkLength_le h.accepted_nodup fun i hi => h.count_eq ▸ h.accepted_lt i hi

/-- What has been accepted is marked or dirty, and not both. -/
theorem perm (h : Accounted b l) (hkept : l.Kept) :
    (l.marks b.transferId ++ b.dirtyChunks).Perm b.receiver.accepted := by
  have hmarks : (l.marks b.transferId).Nodup :=
    (hkept.pairwise_marks _).imp fun hlt => hlt.ne
  have hdisjoint : List.Disjoint (l.marks b.transferId) b.dirtyChunks :=
    fun i hi hdirty => ((h.mem_dirty i).mp hdirty).2 hi
  refine (List.perm_ext_iff_of_nodup
    (List.nodup_append'.mpr ⟨hmarks, h.dirty_nodup, hdisjoint⟩) h.accepted_nodup).mpr fun i => ?_
  rw [List.mem_append, h.mem_dirty]
  have := h.marked i
  tauto

theorem length_accepted (h : Accounted b l) (hkept : l.Kept) :
    b.durableChunks + b.dirtyChunks.length = b.receiver.accepted.length := by
  rw [h.durable, ← List.length_append]
  exact (h.perm hkept).length_eq

theorem accepted_subperm (h : Accounted b l) :
    b.receiver.accepted.Subperm (List.range b.chunkCount) :=
  List.subperm_of_subset h.accepted_nodup fun i hi => List.mem_range.mpr (h.accepted_lt i hi)

theorem counters_le (h : Accounted b l) (hkept : l.Kept) :
    b.durableChunks + b.dirtyChunks.length ≤ b.chunkCount := by
  rw [h.length_accepted hkept, ← List.length_range (n := b.chunkCount)]
  exact h.accepted_subperm.length_le

/-- **The counters reach the number of chunks when every chunk is accepted.**  It is this
equivalence that allows a counter to decide about a commit. -/
theorem full_iff (h : Accounted b l) (hkept : l.Kept) :
    b.durableChunks + b.dirtyChunks.length = b.chunkCount ↔ b.Full := by
  have hsub := h.accepted_subperm
  rw [h.length_accepted hkept]
  constructor
  · intro hcount i hi
    have hperm := hsub.perm_of_length_le (by rw [hcount, List.length_range])
    exact hperm.mem_iff.mpr (List.mem_range.mpr hi)
  · intro hfull
    have hrange : (List.range b.chunkCount).Subperm b.receiver.accepted :=
      List.subperm_of_subset List.nodup_range fun i hi => hfull i (List.mem_range.mp hi)
    have hle := hsub.length_le
    have hge := hrange.length_le
    rw [List.length_range] at hle hge
    omega

/-- With nothing dirty, a full batch has all its marks. -/
theorem marks_eq_range (h : Accounted b l) (hkept : l.Kept) (hclean : b.dirtyChunks = [])
    (hfull : b.Full) : l.marks b.transferId = List.range b.chunkCount := by
  refine List.Pairwise.eq_of_mem_iff (hkept.pairwise_marks _) List.pairwise_lt_range fun i => ?_
  have hmem := h.mem_dirty i
  rw [hclean] at hmem
  rw [List.mem_range]
  refine ⟨fun hi => h.accepted_lt i (h.marked i hi), fun hi => ?_⟩
  by_contra hunmarked
  exact absurd (hmem.mpr ⟨hfull i hi, hunmarked⟩) (List.not_mem_nil)

theorem of_row (h : Accounted b l) (hrow : l'.row b.transferId = l.row b.transferId) :
    Accounted b l' := by
  have hmarks : l'.marks b.transferId = l.marks b.transferId := by
    rw [ChunkLedger.marks, hrow, ChunkLedger.marks]
  exact
    { h with
      row := hrow ▸ h.row
      marked := hmarks ▸ h.marked
      durable := hmarks ▸ h.durable
      mem_dirty := hmarks ▸ h.mem_dirty }

/-- A chunk that is new and in range is accepted. -/
theorem accept (h : Accounted b l) {index : Nat} (hlt : index < b.chunkCount)
    (hnew : index ∉ b.receiver.accepted) :
    Accounted (b.accept index (chunkLength b.receiver.expectedSize index)) l := by
  have hclean : index ∉ b.dirtyChunks := fun hdirty => hnew ((h.mem_dirty index).mp hdirty).1
  have hunmarked : index ∉ l.marks b.transferId := fun hmarked => hnew (h.marked index hmarked)
  rw [Batch.accept_of_not_dirty hclean]
  refine ⟨h.receiver_id, h.receiver_count, h.count_eq, h.row, ?_, ?_, ?_, h.durable, ?_, ?_, ?_, ?_⟩
  · exact List.nodup_cons.mpr ⟨hnew, h.accepted_nodup⟩
  · intro i hi
    rcases List.mem_cons.mp hi with rfl | hi
    · exact hlt
    · exact h.accepted_lt i hi
  · exact fun i hi => List.mem_cons_of_mem _ (h.marked i hi)
  · exact List.nodup_append'.mpr
      ⟨h.dirty_nodup, List.nodup_singleton _, by simpa [List.disjoint_singleton] using hclean⟩
  · intro i
    rw [List.mem_append, List.mem_singleton, DownloadReceiver.accepted_accept, List.mem_cons,
      h.mem_dirty]
    by_cases hi : i = index
    · simp [hi, hunmarked]
    · simp [hi]
  · show b.dirtyBytes + _ =
      ((b.dirtyChunks ++ [index]).map (chunkLength b.receiver.expectedSize)).sum
    rw [h.dirtyBytes, List.map_append, List.sum_append, List.map_singleton, List.sum_singleton]
  · show b.receiver.receivedBytes + _ =
      ((index :: b.receiver.accepted).map (chunkLength b.receiver.expectedSize)).sum
    rw [h.received, List.map_cons, List.sum_cons, Nat.add_comm]

/-- The dirty chunks are marked. -/
theorem persist (h : Accounted b l) (hkept : l.Kept) (now : Int) :
    Accounted b.persisted (l.mark b.transferId b.dirtyChunks now) := by
  obtain ⟨t, ht, hpath, hhash⟩ := h.row
  have hmem := hkept.mem_marks_mark ht b.dirtyChunks now
  have hsorted := (hkept.mark b.transferId b.dirtyChunks now).pairwise_marks b.transferId
  have hperm : ((l.mark b.transferId b.dirtyChunks now).marks b.transferId).Perm
      b.receiver.accepted := by
    refine List.Perm.trans ?_ (h.perm hkept)
    refine (List.perm_ext_iff_of_nodup (hsorted.imp fun hlt => hlt.ne)
      ((h.perm hkept).nodup_iff.mpr h.accepted_nodup)).mpr fun i => ?_
    rw [hmem, List.mem_append, or_comm]
  refine ⟨h.receiver_id, h.receiver_count, h.count_eq, ?_, h.accepted_nodup, h.accepted_lt, ?_, ?_,
    List.nodup_nil, ?_, rfl, h.received⟩
  · refine ⟨ChunkLedger.markRow b.dirtyChunks now t, ?_, hpath, hhash⟩
    show (l.mark b.transferId b.dirtyChunks now).row b.transferId = _
    rw [ChunkLedger.row_mark, if_pos rfl, ht, Option.map_some]
  · exact fun i hi => hperm.mem_iff.mp hi
  · show b.durableChunks + b.dirtyChunks.length = _
    rw [h.durable, ← List.length_append]
    exact ((h.perm hkept).trans hperm.symm).length_eq
  · intro i
    refine ⟨fun hi => absurd hi List.not_mem_nil, fun hi => absurd ?_ hi.2⟩
    exact hperm.mem_iff.mpr hi.1

/-- Finishing a transfer changes nothing in the books. -/
theorem finish (h : Accounted b l) (id : TransferId) (now : Int) :
    Accounted b (l.finish id now) := by
  obtain ⟨t, ht, hpath, hhash⟩ := h.row
  refine { h with row := ?_, marked := ?_, durable := ?_, mem_dirty := ?_ }
  · rw [ChunkLedger.row_finish, ht]
    split
    · exact ⟨ChunkLedger.finishRow now t, rfl, hpath, hhash⟩
    · exact ⟨t, rfl, hpath, hhash⟩
  · rw [ChunkLedger.marks_finish]
    exact h.marked
  · rw [ChunkLedger.marks_finish]
    exact h.durable
  · rw [ChunkLedger.marks_finish]
    exact h.mem_dirty

end Accounted

/-! ## Replacing a batch -/

/-- A list of batches in which `b'` has taken the place of `b`. -/
structure Replaces (b b' : Batch H) (old new : List (Batch H)) : Prop where
  ids : new.map Batch.transferId = old.map Batch.transferId
  mem : ∀ x ∈ new, x = b' ∨ (x ∈ old ∧ x.transferId ≠ b.transferId)

theorem Replaces.trans {b b' b'' : Batch H} {l l' l'' : List (Batch H)}
    (h : Replaces b b' l l') (h' : Replaces b' b'' l' l'') : Replaces b b'' l l'' := by
  refine ⟨h'.ids.trans h.ids, fun x hx => ?_⟩
  rcases h'.mem x hx with rfl | ⟨hmem, hne⟩
  · exact .inl rfl
  · rcases h.mem x hmem with rfl | hold
    · exact absurd rfl hne
    · exact .inr hold

section Lists

variable {γ : Type} (batch : γ → Batch H) {p : γ → Bool} (f : γ → γ) {l : List γ} {d : γ}

/-- In a list of downloads of different transfers, updating the first that matches replaces it. -/
theorem replaces_updateFirst (hfind : l.find? p = some d)
    (howners : ((l.map batch).map Batch.transferId).Nodup)
    (hf : ∀ x, (batch (f x)).transferId = (batch x).transferId) :
    Replaces (batch d) (batch (f d)) (l.map batch) ((Node.updateFirst p f l).map batch) := by
  induction l with
  | nil => cases hfind
  | cons x l ih =>
    rw [List.map_cons, List.map_cons] at howners
    obtain ⟨hhead, htail⟩ := List.nodup_cons.mp howners
    rw [Node.updateFirst]
    by_cases hx : p x = true
    · rw [List.find?_cons_of_pos hx] at hfind
      cases hfind
      rw [if_pos hx]
      refine ⟨by simp [hf], fun y hy => ?_⟩
      rcases List.mem_cons.mp hy with rfl | hy
      · exact .inl rfl
      · refine .inr ⟨List.mem_cons_of_mem _ hy, fun heq => hhead ?_⟩
        exact heq ▸ List.mem_map_of_mem hy
    · rw [List.find?_cons_of_neg hx] at hfind
      rw [if_neg hx]
      obtain ⟨hids, hmem⟩ := ih hfind htail
      refine ⟨by rw [List.map_cons, List.map_cons, hids]; rfl, fun y hy => ?_⟩
      rcases List.mem_cons.mp hy with rfl | hy
      · refine .inr ⟨List.mem_cons_self, fun heq => hhead ?_⟩
        rw [heq]
        exact List.mem_map_of_mem (List.mem_map_of_mem (List.mem_of_find?_eq_some hfind))
      · rcases hmem y hy with rfl | ⟨hold, hne⟩
        · exact .inl rfl
        · exact .inr ⟨List.mem_cons_of_mem _ hold, hne⟩

/-- So does updating the one at a position. -/
theorem replaces_modify {i : Nat} (hget : l[i]? = some d)
    (howners : ((l.map batch).map Batch.transferId).Nodup)
    (hf : ∀ x, (batch (f x)).transferId = (batch x).transferId) :
    Replaces (batch d) (batch (f d)) (l.map batch) ((l.modify i f).map batch) := by
  induction l generalizing i with
  | nil => cases hget
  | cons x l ih =>
    rw [List.map_cons, List.map_cons] at howners
    obtain ⟨hhead, htail⟩ := List.nodup_cons.mp howners
    cases i with
    | zero =>
      cases hget
      rw [List.modify_zero_cons]
      refine ⟨by simp [hf], fun y hy => ?_⟩
      rcases List.mem_cons.mp hy with rfl | hy
      · exact .inl rfl
      · refine .inr ⟨List.mem_cons_of_mem _ hy, fun heq => hhead ?_⟩
        exact heq ▸ List.mem_map_of_mem hy
    | succ i =>
      rw [List.getElem?_cons_succ] at hget
      rw [List.modify_succ_cons]
      obtain ⟨hids, hmem⟩ := ih hget htail
      refine ⟨by rw [List.map_cons, List.map_cons, hids]; rfl, fun y hy => ?_⟩
      rcases List.mem_cons.mp hy with rfl | hy
      · refine .inr ⟨List.mem_cons_self, fun heq => hhead ?_⟩
        rw [heq]
        exact List.mem_map_of_mem (List.mem_map_of_mem (List.mem_of_getElem? hget))
      · rcases hmem y hy with rfl | ⟨hold, hne⟩
        · exact .inl rfl
        · exact .inr ⟨List.mem_cons_of_mem _ hold, hne⟩

/-- Erasing it leaves the others. -/
theorem mem_eraseP_of_find (hfind : l.find? p = some d)
    (howners : ((l.map batch).map Batch.transferId).Nodup) {x : Batch H}
    (hx : x ∈ (l.eraseP p).map batch) :
    x ∈ l.map batch ∧ x.transferId ≠ (batch d).transferId := by
  induction l with
  | nil => cases hfind
  | cons y l ih =>
    rw [List.map_cons, List.map_cons] at howners
    obtain ⟨hhead, htail⟩ := List.nodup_cons.mp howners
    by_cases hy : p y = true
    · rw [List.find?_cons_of_pos hy] at hfind
      cases hfind
      rw [List.eraseP_cons_of_pos hy] at hx
      exact ⟨List.mem_cons_of_mem _ hx, fun heq => hhead (heq ▸ List.mem_map_of_mem hx)⟩
    · rw [List.find?_cons_of_neg hy] at hfind
      rw [List.eraseP_cons_of_neg hy] at hx
      rcases List.mem_cons.mp hx with rfl | hx
      · refine ⟨List.mem_cons_self, fun heq => hhead ?_⟩
        rw [heq]
        exact List.mem_map_of_mem (List.mem_map_of_mem (List.mem_of_find?_eq_some hfind))
      · obtain ⟨hmem, hne⟩ := ih hfind htail hx
        exact ⟨List.mem_cons_of_mem _ hmem, hne⟩

end Lists

/-! ## The books of a node -/

namespace ChunkLedger

/-- The books are right, and no two batches are of the same transfer. -/
structure Accounts (l : ChunkLedger H) : Prop where
  kept : l.Kept
  owners : (l.batches.map Batch.transferId).Nodup
  each : ∀ b ∈ l.batches, Accounted b l

namespace Accounts

variable {l l' : ChunkLedger H} {b b' : Batch H} {new : List (Batch H)}

theorem replace (h : l.Accounts) (hnew : Replaces b b' l.batches new)
    (hbatches : l'.batches = new) (hkept : l'.Kept) (hb' : Accounted b' l')
    (hrow : ∀ id, id ≠ b.transferId → l'.row id = l.row id) : l'.Accounts := by
  refine ⟨hkept, ?_, fun x hx => ?_⟩
  · rw [hbatches, hnew.ids]
    exact h.owners
  · rcases hnew.mem x (hbatches ▸ hx) with rfl | ⟨hold, hne⟩
    · exact hb'
    · exact (h.each x hold).of_row (hrow _ hne)

theorem accept (h : l.Accounts) (hb : b ∈ l.batches) {index : Nat} (hlt : index < b.chunkCount)
    (hfresh : index ∉ b.receiver.accepted)
    (hnew : Replaces b (b.accept index (chunkLength b.receiver.expectedSize index)) l.batches new) :
    (l.withBatches new).Accounts :=
  h.replace hnew rfl ⟨h.kept.ids, h.kept.marks⟩
    (((h.each b hb).accept hlt hfresh).of_row rfl) fun _ _ => rfl

theorem persist (h : l.Accounts) (hb : b ∈ l.batches) (now : Int)
    (hnew : Replaces b b.persisted l.batches new) :
    ((l.mark b.transferId b.dirtyChunks now).withBatches new).Accounts := by
  have hkept := h.kept.mark b.transferId b.dirtyChunks now
  refine h.replace hnew rfl ⟨hkept.ids, hkept.marks⟩
    (((h.each b hb).persist h.kept now).of_row rfl) fun id hid => ?_
  show (l.mark b.transferId b.dirtyChunks now).row id = l.row id
  rw [row_mark, if_neg hid]

theorem finish (h : l.Accounts) (id : TransferId) (now : Int) : (l.finish id now).Accounts :=
  ⟨h.kept.finish now, h.owners, fun b hb => (h.each b hb).finish id now⟩

theorem sublist (h : l.Accounts) (hsub : new.Sublist l.batches) : (l.withBatches new).Accounts :=
  ⟨⟨h.kept.ids, h.kept.marks⟩, h.owners.sublist (hsub.map _),
    fun b hb => (h.each b (hsub.subset hb)).of_row rfl⟩

theorem row_append {t : TransferRecord H} {id : TransferId} (hne : id ≠ t.transferId) :
    { l with transfers := l.transfers ++ [t] }.row id = l.row id := by
  rw [row, List.find?_append, row, List.find?_singleton, if_neg (by simpa using hne.symm),
    Option.or_none]

/-- A transfer is created. -/
theorem create (h : l.Accounts) {t : TransferRecord H}
    (hnew : ∀ r ∈ l.transfers, r.transferId ≠ t.transferId) (hmarks : t.completedChunks = []) :
    { l with transfers := l.transfers ++ [t] }.Accounts := by
  refine ⟨⟨?_, ?_⟩, h.owners, fun b hb => ?_⟩
  · rw [List.map_append]
    refine List.nodup_append'.mpr ⟨h.kept.ids, List.nodup_singleton _, fun id hid hid' => ?_⟩
    obtain ⟨r, hr, rfl⟩ := List.mem_map.mp hid
    exact hnew r hr (List.mem_singleton.mp hid')
  · intro r hr
    rcases List.mem_append.mp hr with hr | hr
    · exact h.kept.marks r hr
    · rw [List.mem_singleton.mp hr, hmarks]
      exact List.Pairwise.nil
  · obtain ⟨r, hrow, -, -⟩ := (h.each b hb).row
    refine (h.each b hb).of_row (row_append fun heq => ?_)
    have hr : r.transferId = b.transferId := by simpa using List.find?_some hrow
    exact hnew r (List.mem_of_find?_eq_some hrow) (hr.trans heq)

/-- A download begins. -/
theorem begin (h : l.Accounts) (hb : Accounted b l)
    (hnew : ∀ x ∈ l.batches, x.transferId ≠ b.transferId) :
    (l.withBatches (l.batches ++ [b])).Accounts := by
  refine ⟨⟨h.kept.ids, h.kept.marks⟩, ?_, fun x hx => ?_⟩
  · show ((l.batches ++ [b]).map Batch.transferId).Nodup
    rw [List.map_append]
    refine List.nodup_append'.mpr ⟨h.owners, List.nodup_singleton _, fun id hid hid' => ?_⟩
    obtain ⟨x, hx, rfl⟩ := List.mem_map.mp hid
    exact hnew x hx (List.mem_singleton.mp hid')
  · rcases List.mem_append.mp hx with hx | hx
    · exact (h.each x hx).of_row rfl
    · rw [List.mem_singleton.mp hx]
      exact hb.of_row rfl

/-- All batches are gone. -/
theorem clear (h : l.Accounts) : (l.withBatches []).Accounts :=
  h.sublist (List.nil_sublist _)

end Accounts

end ChunkLedger

/-! ## Chunks that arrive

A frame names a transfer and a file.  It may belong to no download, or fail the checks of the
receiver, or repeat a chunk that is already there; in all these cases the books are not touched.
Otherwise the chunk is accepted, and then perhaps all that is dirty is marked, and then perhaps the
file is complete. -/

namespace Batch

/-- The batch once a chunk of the given number has been written. -/
def take (b : Batch H) (index : Nat) : Batch H :=
  b.accept index (chunkLength b.receiver.expectedSize index)

variable [ContentHash H]

/-- The chunk names the transfer and the file of the batch. -/
def owns (chunk : Chunk H) (b : Batch H) : Bool :=
  b.transferId = chunk.transferId ∧ b.hash = chunk.fileHash

/-- The checks of `DownloadReceiver::AcceptChunk` on a chunk. -/
def check (b : Batch H) (chunk : Chunk H) : Except Error Unit :=
  b.receiver.checkChunk (chunk.offset / logicalChunkSize) chunk.offset chunk.bytes chunk.chunkHash

theorem check_eq_ok {b : Batch H} {chunk : Chunk H} (h : b.check chunk = .ok ()) :
    chunk.offset / logicalChunkSize < b.receiver.chunkCount ∧
      chunk.bytes.length =
        chunkLength b.receiver.expectedSize (chunk.offset / logicalChunkSize) := by
  rw [check, DownloadReceiver.checkChunk] at h
  split at h
  · cases h
  · rename_i hvalid
    simp only [not_or, not_le, ne_eq, not_not] at hvalid
    exact ⟨hvalid.1, hvalid.2.2.1⟩

end Batch

namespace ChunkLedger

variable [ContentHash H]

/-- The batch that a chunk belongs to. -/
def owner (l : ChunkLedger H) (chunk : Chunk H) : Option (Batch H) :=
  l.batches.find? (Batch.owns chunk)

/-- The chunk belongs to no batch, or fails the checks. -/
def Refuses (l : ChunkLedger H) (chunk : Chunk H) : Prop :=
  ∀ b, l.owner chunk = some b → b.check chunk ≠ .ok ()

/-- With the chunk, what a batch has accepted becomes the whole file. -/
def Fills (l : ChunkLedger H) (chunk : Chunk H) (id : TransferId) : Prop :=
  ∃ b, l.owner chunk = some b ∧ b.transferId = id ∧ b.check chunk = .ok () ∧ ¬ b.Full ∧
    (b.take (chunk.offset / logicalChunkSize)).Full

omit [ContentHash H] in
/-- Every batch is of an active transfer, and lacks a chunk. -/
def Open (l : ChunkLedger H) : Prop :=
  ∀ b ∈ l.batches, l.state b.transferId = some .active ∧ ¬ b.Full

/-- What a new chunk does to the books. -/
structure Takes (b : Batch H) (index : Nat) (l l' : ChunkLedger H) : Prop where
  accounts : l'.Accounts
  state : ∀ id, l'.state id =
    if id = b.transferId ∧ (b.take index).Full then some .completed else l.state id
  mem : ∀ x ∈ l'.batches, (x ∈ l.batches ∧ x.transferId ≠ b.transferId) ∨
    (¬ (b.take index).Full ∧ (x = b.take index ∨ x = (b.take index).persisted))

/-- What `AcceptChunk` has done to the books when it returns. -/
def Served (chunk : Chunk H) (l l' : ChunkLedger H) : Prop :=
  ∃ b, l.owner chunk = some b ∧ b.check chunk = .ok () ∧
    ((chunk.offset / logicalChunkSize ∈ b.receiver.accepted ∧ l' = l) ∨
      (chunk.offset / logicalChunkSize ∉ b.receiver.accepted ∧
        Takes b (chunk.offset / logicalChunkSize) l l'))

/-- What it has done when it throws. -/
structure Failed (chunk : Chunk H) (l : ChunkLedger H) (e : Error) (l' : ChunkLedger H) : Prop where
  accounts : l'.Accounts
  notLogic : ¬ e.IsLogic
  refused : l.Refuses chunk → l' = l

/-- What it has done if the chunk was valid. -/
theorem failed_of_valid {l l' : ChunkLedger H} {chunk : Chunk H} {b : Batch H} {e : Error}
    (howner : l.owner chunk = some b) (hcheck : b.check chunk = .ok ()) (haccounts : l'.Accounts)
    (he : ¬ e.IsLogic) : l.Failed chunk e l' :=
  ⟨haccounts, he, fun hrefuses => absurd hcheck (hrefuses b howner)⟩

/-! ### The end of `AcceptChunk` -/

section Settling

omit [ContentHash H]

variable {l : ChunkLedger H} {b : Batch H} {index : Nat} {new new' : List (Batch H)}

theorem state_withBatches (l : ChunkLedger H) (bs : List (Batch H)) (id : TransferId) :
    (l.withBatches bs).state id = l.state id := rfl

theorem Accounts.state_isSome {l : ChunkLedger H} (h : l.Accounts) {b : Batch H}
    (hb : b ∈ l.batches) :
    (l.state b.transferId).isSome := by
  obtain ⟨t, ht, -, -⟩ := (h.each b hb).row
  rw [state, ht]
  rfl

/-- The books when `AcceptChunk` has written a new chunk for `b`, and marked it if it had to: the
batch is now `d`, and what is left to do is to commit it if its counter says so. -/
structure Settling (l : ChunkLedger H) (b : Batch H) (index : Nat) (d : Batch H)
    (l' : ChunkLedger H) : Prop where
  accounts : l'.Accounts
  goal : d = b.take index ∨ d = (b.take index).persisted
  full : d.durableChunks = d.chunkCount ↔ (b.take index).Full
  marks : d.durableChunks = d.chunkCount →
    l'.marks d.receiver.transferId = List.range d.receiver.chunkCount
  receiver_id : d.receiver.transferId = b.transferId
  state : ∀ id, l'.state id = l.state id
  isSome : (l.state b.transferId).isSome
  mem : ∀ x ∈ l'.batches, (x ∈ l.batches ∧ x.transferId ≠ b.transferId) ∨ x = d

/-- The chunk stays dirty. -/
theorem Accounts.settling_dirty (h : l.Accounts) (hb : b ∈ l.batches) (hlt : index < b.chunkCount)
    (hfresh : index ∉ b.receiver.accepted) (hnew : Replaces b (b.take index) l.batches new)
    (hcount : (b.take index).durableChunks + (b.take index).dirtyChunks.length ≠
      (b.take index).chunkCount) :
    Settling l b index (b.take index) (l.withBatches new) := by
  have haccounted := (h.each b hb).accept hlt hfresh
  have hfull : ¬ (b.take index).Full := fun hfull => hcount ((haccounted.full_iff h.kept).mpr hfull)
  have hle : (b.take index).durableChunks + (b.take index).dirtyChunks.length ≤
      (b.take index).chunkCount := haccounted.counters_le h.kept
  have hdurable : (b.take index).durableChunks ≠ (b.take index).chunkCount := by omega
  exact
    { accounts := h.accept hb hlt hfresh hnew
      goal := .inl rfl
      full := ⟨fun heq => absurd heq hdurable, fun hfull' => absurd hfull' hfull⟩
      marks := fun heq => absurd heq hdurable
      receiver_id := (h.each b hb).receiver_id
      state := fun _ => rfl
      isSome := h.state_isSome hb
      mem := fun x hx => (hnew.mem x hx).symm }

/-- The dirty chunks are marked. -/
theorem Accounts.settling_persisted (now : Int) (h : l.Accounts) (hb : b ∈ l.batches)
    (hlt : index < b.chunkCount) (hfresh : index ∉ b.receiver.accepted)
    (hnew : Replaces b (b.take index) l.batches new)
    (hnew' : Replaces (b.take index) (b.take index).persisted new new')
    (hmem : b.take index ∈ new) :
    Settling l b index (b.take index).persisted
      (((l.withBatches new).mark b.transferId (b.take index).dirtyChunks now).withBatches
        new') := by
  have haccepted := h.accept hb hlt hfresh hnew
  have haccounted := (h.each b hb).accept hlt hfresh
  have hfull := haccounted.full_iff h.kept
  refine
    { accounts := haccepted.persist hmem now hnew'
      goal := .inr rfl
      full := hfull
      marks := fun heq => ?_
      receiver_id := (h.each b hb).receiver_id
      state := fun id => by rw [state_withBatches, state_mark, state_withBatches]
      isSome := h.state_isSome hb
      mem := fun x hx => ((hnew.trans hnew').mem x hx).symm }
  have hmarked := ((haccepted.each _ hmem).persist haccepted.kept now).marks_eq_range
    (haccepted.kept.mark _ _ now) rfl (hfull.mp heq)
  have hid : (b.take index).persisted.receiver.transferId = b.transferId :=
    (h.each b hb).receiver_id
  have hcount : (b.take index).persisted.receiver.chunkCount = b.chunkCount :=
    (h.each b hb).receiver_count
  rw [hid, hcount]
  exact hmarked

/-- Nothing is left to do. -/
theorem Settling.takes {d : Batch H} {l' : ChunkLedger H} (h : Settling l b index d l')
    (hcount : d.durableChunks ≠ d.chunkCount) : Takes b index l l' := by
  have hfull : ¬ (b.take index).Full := fun hfull => hcount (h.full.mpr hfull)
  refine ⟨h.accounts, fun id => ?_, fun x hx => ?_⟩
  · rw [if_neg fun hid => hfull hid.2]
    exact h.state id
  · rcases h.mem x hx with hold | rfl
    · exact .inl hold
    · exact .inr ⟨hfull, h.goal⟩

/-- The transfer is finished, and its batch is gone. -/
theorem Settling.takes_finish (now : Int) (new : List (Batch H)) {d : Batch H} {l' : ChunkLedger H}
    (h : Settling l b index d l')
    (hcount : d.durableChunks = d.chunkCount)
    (hsub : new.Sublist l'.batches)
    (hne : ∀ x ∈ new, x.transferId ≠ d.transferId) :
    Takes b index l ((l'.finish d.receiver.transferId now).withBatches new) := by
  have hfull := h.full.mp hcount
  have hid : d.transferId = b.transferId := by rcases h.goal with rfl | rfl <;> rfl
  refine ⟨(h.accounts.finish _ now).sublist hsub, fun id => ?_, fun x hx => ?_⟩
  · rw [state_withBatches, state_finish, h.receiver_id]
    simp only [hfull, and_true]
    by_cases hb : id = b.transferId
    · rw [if_pos hb, if_pos hb]
      have hsome : (l'.state b.transferId).isSome := by
        rw [h.state]
        exact h.isSome
      rw [ChunkLedger.state, Option.isSome_map] at hsome
      obtain ⟨t, ht⟩ := Option.isSome_iff_exists.mp hsome
      rw [hb, ht, Option.map_some]
    · rw [if_neg hb, if_neg hb, h.state]
  · rcases h.mem x (hsub.subset hx) with hold | rfl
    · exact .inl hold
    · exact absurd rfl (hne x hx)

end Settling

/-! ### What the runs need -/

theorem owner_mem {l : ChunkLedger H} {chunk : Chunk H} {b : Batch H} (h : l.owner chunk = some b) :
    b ∈ l.batches := List.mem_of_find?_eq_some h

omit [ContentHash H] in
theorem full_take_of_mem {b : Batch H} {index : Nat} (h : index ∈ b.receiver.accepted) :
    (b.take index).Full ↔ b.Full := by
  refine ⟨fun hfull i hi => ?_, fun hfull i hi => List.mem_cons_of_mem _ (hfull i hi)⟩
  rcases List.mem_cons.mp (hfull i hi) with rfl | hmem
  · exact h
  · exact hmem

/-- After a chunk that was served, every batch still lacks one. -/
theorem Served.open {l l' : ChunkLedger H} {chunk : Chunk H} (h : Served chunk l l')
    (hopen : l.Open) : l'.Open := by
  obtain ⟨b, howner, -, ⟨-, rfl⟩ | ⟨-, htakes⟩⟩ := h
  · exact hopen
  intro x hx
  rw [htakes.state]
  rcases htakes.mem x hx with ⟨hold, hne⟩ | ⟨hfull, hx⟩
  · rw [if_neg fun hid => hne hid.1]
    exact hopen x hold
  · have hid : x.transferId = b.transferId := by rcases hx with rfl | rfl <;> rfl
    rw [if_neg fun hid => hfull hid.2, hid]
    refine ⟨(hopen b (owner_mem howner)).1, fun hxfull => hfull ?_⟩
    rcases hx with rfl | rfl
    · exact hxfull
    · exact hxfull

/-- **A transfer is finished by the chunk that completes what has been accepted, and by no
other.** -/
theorem Served.completed_iff {l l' : ChunkLedger H} {chunk : Chunk H} (h : Served chunk l l')
    (hopen : l.Open) (id : TransferId) :
    l.state id ≠ some .completed ∧ l'.state id = some .completed ↔ l.Fills chunk id := by
  obtain ⟨b, howner, hcheck, hcase⟩ := h
  have hb := hopen b (owner_mem howner)
  constructor
  · rintro ⟨hbefore, hafter⟩
    rcases hcase with ⟨-, rfl⟩ | ⟨-, htakes⟩
    · exact absurd hafter hbefore
    · rw [htakes.state] at hafter
      split at hafter
      · rename_i hid
        exact ⟨b, howner, hid.1.symm, hcheck, hb.2, hid.2⟩
      · exact absurd hafter hbefore
  · rintro ⟨b', howner', rfl, -, hfull, hfull'⟩
    cases howner.symm.trans howner'
    rcases hcase with ⟨hmem, -⟩ | ⟨-, htakes⟩
    · exact absurd ((full_take_of_mem hmem).mp hfull') hfull
    · rw [htakes.state, if_pos ⟨rfl, hfull'⟩, hb.1]
      exact ⟨nofun, rfl⟩

end ChunkLedger

/-! ## Downloads that begin -/

/-- **Nothing is requested when nothing is missing**, and only then.  So a download without a
request has nothing to wait for. -/
theorem missingRanges_eq_nil {total cursor : Nat} {completed : List Nat} {ranges : List ChunkRange}
    (hsorted : completed.Pairwise (· < ·)) (hbounds : ∀ i ∈ completed, cursor ≤ i ∧ i < total)
    (h : missingRanges total cursor completed = .ok ranges) :
    ranges = [] ↔ completed = List.range' cursor (total - cursor) := by
  induction completed generalizing cursor ranges with
  | nil =>
    rw [missingRanges] at h
    split at h
    · rename_i hlt
      split at h
      · cases h
      · cases h
        refine ⟨fun heq => absurd heq (List.cons_ne_nil _ _), fun heq => ?_⟩
        rw [← Nat.succ_pred_eq_of_pos (Nat.sub_pos_of_lt hlt), List.range'_succ] at heq
        cases heq
    · rename_i hle
      cases h
      rw [Nat.sub_eq_zero_of_le (not_lt.mp hle)]
      exact ⟨fun _ => rfl, fun _ => rfl⟩
  | cons chunk rest ih =>
    obtain ⟨hhead, htail⟩ := List.pairwise_cons.mp hsorted
    obtain ⟨hcursor, htotal⟩ := hbounds chunk List.mem_cons_self
    rw [missingRanges] at h
    split at h
    · cases h
    obtain ⟨missing, hmissing, hrest⟩ := ok_of_bind h
    cases hrest
    have hih := ih htail (fun i hi => ⟨hhead i hi, (hbounds i (List.mem_cons_of_mem _ hi)).2⟩)
      hmissing
    obtain ⟨gap, hgap⟩ : ∃ gap, total - cursor = gap + 1 := ⟨total - cursor - 1, by omega⟩
    rw [hgap, List.range'_succ, List.cons.injEq]
    by_cases hlt : chunk > cursor
    · rw [if_pos hlt]
      exact ⟨fun heq => absurd heq (List.cons_ne_nil _ _), fun heq => absurd heq.1 hlt.ne'⟩
    · rw [if_neg hlt]
      obtain rfl : chunk = cursor := by omega
      rw [hih, show total - (chunk + 1) = gap by omega]
      exact ⟨fun heq => ⟨rfl, heq⟩, fun heq => heq.2⟩

namespace DownloadReceiver

variable {receiver : DownloadReceiver H} {db : Database H}

theorem notLogic_create (db : Database H) (id : TransferId) (p : Path) (size : Nat) (hash : H)
    (count : Nat) : NotLogic (create db id p size hash count) :=
  notLogic_ite (notLogic_error nofun) <| notLogic_ite (notLogic_error nofun) <|
    notLogic_ite (notLogic_error nofun) (notLogic_ok _)

theorem notLogic_missingRanges (total cursor : Nat) (completed : List Nat) :
    NotLogic (missingRanges total cursor completed) := by
  induction completed generalizing cursor with
  | nil =>
    exact notLogic_ite (notLogic_ite (notLogic_error nofun) (notLogic_ok _)) (notLogic_ok _)
  | cons chunk rest ih =>
    exact notLogic_ite (notLogic_error nofun) (notLogic_bind (ih _) fun _ => notLogic_ok _)

theorem notLogic_resumeRequest [ContentHash H] (receiver : DownloadReceiver H) (db : Database H) :
    NotLogic (receiver.resumeRequest db) := by
  refine notLogic_bind ?_ fun _ => notLogic_ok _
  exact notLogic_ite (notLogic_error nofun) <| notLogic_ite (notLogic_error nofun) <|
    notLogic_missingRanges _ _ _

/-- The request is empty when every chunk is marked. -/
theorem resumeRequest_eq_nil [ContentHash H] {request : FileRequest H}
    (h : receiver.resumeRequest db = .ok request)
    (hsorted : (db.completedTransferChunks receiver.transferId).Pairwise (· < ·)) :
    receiver.chunkCount ≠ 0 ∧ (request.missingRanges = [] ↔
      db.completedTransferChunks receiver.transferId = List.range receiver.chunkCount) := by
  obtain ⟨ranges, hranges, heq⟩ := ok_of_bind h
  cases heq
  rw [missingChunkRanges] at hranges
  split at hranges
  · cases hranges
  rename_i hcount
  dsimp only at hranges
  split at hranges
  · cases hranges
  rename_i hany
  have hlt : ∀ i ∈ db.completedTransferChunks receiver.transferId,
      0 ≤ i ∧ i < receiver.chunkCount := by
    refine fun i hi => ⟨Nat.zero_le i, ?_⟩
    by_contra hle
    exact hany (List.any_eq_true.mpr ⟨i, hi, decide_eq_true (not_lt.mp hle)⟩)
  have hiff := missingRanges_eq_nil hsorted hlt hranges
  rw [Nat.sub_zero, ← List.range_eq_range'] at hiff
  exact ⟨hcount, hiff⟩

end DownloadReceiver

theorem foldl_laterTransfer_mem (l : List (TransferRecord H)) (t : TransferRecord H) :
    l.foldl Database.laterTransfer t ∈ t :: l := by
  induction l generalizing t with
  | nil => exact List.mem_cons_self
  | cons r l ih =>
    rw [List.foldl_cons, Database.laterTransfer]
    split
    · exact List.mem_cons_of_mem _ (ih r)
    · rcases List.mem_cons.mp (ih t) with heq | hmem
      · rw [heq]
        exact List.mem_cons_self
      · exact List.mem_cons_of_mem _ (List.mem_cons_of_mem _ hmem)

/-- What `FindActiveDownloadTransfer` finds. -/
theorem findActiveDownloadTransfer_eq_ok [DecidableEq H] {db : Database H} {peer : DeviceId}
    {p : Path} {hash : H} {t : TransferRecord H}
    (h : db.findActiveDownloadTransfer peer p hash = .ok (some t)) :
    t ∈ db.transfers ∧ t.relativePath = p ∧ t.fileHash = hash ∧ t.state = .active := by
  have hmem : t ∈ Database.activeDownloads peer p hash db.transfers := by
    rw [Database.findActiveDownloadTransfer] at h
    split at h
    · cases h
    obtain ⟨_, -, h⟩ := ok_of_bind h
    split at h
    · cases h
    · rename_i first rest hactive
      cases h
      rw [hactive]
      exact foldl_laterTransfer_mem rest first
  rw [Database.activeDownloads, List.mem_filter, decide_eq_true_iff] at hmem
  exact ⟨hmem.1, hmem.2.2.1, hmem.2.2.2.1, hmem.2.2.2.2.2⟩

namespace ChunkLedger

/-- No batch is for the file at the path. -/
def Lacks (l : ChunkLedger H) (p : Path) (hash : H) : Prop :=
  ∀ b ∈ l.batches, ¬ (b.path = p ∧ b.hash = hash)

/-- The books when `BeginDownload` has found the transfer to continue, or created one. -/
structure Opened (l : ChunkLedger H) (active : Option (TransferRecord H)) (p : Path) (hash : H)
    (id : TransferId) (l' : ChunkLedger H) : Prop where
  accounts : l'.Accounts
  batches : l'.batches = l.batches
  row : ∃ t, l'.row id = some t ∧ t.relativePath = p ∧ t.fileHash = hash ∧ t.state = .active
  found : ∀ t, active = some t →
    t.transferId = id ∧ t.completedChunks = l'.marks id ∧ l.state id = some .active
  created : active = none → l'.marks id = []
  fresh : ∀ b ∈ l.batches, b.transferId ≠ id
  completed : ∀ id', l'.state id' = some .completed ↔ l.state id' = some .completed
  state : ∀ b ∈ l.batches, l'.state b.transferId = l.state b.transferId

variable {l : ChunkLedger H} {p : Path} {hash : H} {t : TransferRecord H}

/-- A transfer is continued. -/
theorem Accounts.opened_found (h : l.Accounts) (hlacks : l.Lacks p hash) (ht : t ∈ l.transfers)
    (hpath : t.relativePath = p) (hhash : t.fileHash = hash) (hactive : t.state = .active) :
    Opened l (some t) p hash t.transferId l := by
  have hrow := h.kept.row ht
  refine ⟨h, rfl, ⟨t, hrow, hpath, hhash, hactive⟩, ?_, nofun, fun b hb hid => ?_,
    fun _ => Iff.rfl, fun _ _ => rfl⟩
  · rintro _ ⟨⟩
    rw [marks, state, hrow]
    exact ⟨rfl, rfl, congrArg some hactive⟩
  · obtain ⟨t', ht', hpath', hhash'⟩ := (h.each b hb).row
    rw [hid, hrow] at ht'
    cases ht'
    exact hlacks b hb ⟨hpath'.symm.trans hpath, hhash'.symm.trans hhash⟩

/-- A transfer is created. -/
theorem Accounts.opened_created (h : l.Accounts)
    (hnew : ∀ r ∈ l.transfers, r.transferId ≠ t.transferId) (hmarks : t.completedChunks = [])
    (hactive : t.state = .active) :
    Opened l none t.relativePath t.fileHash t.transferId
      { l with transfers := l.transfers ++ [t] } := by
  have hnone : l.row t.transferId = none := by
    rw [row, List.find?_eq_none]
    exact fun r hr => by simpa using hnew r hr
  have hrow : { l with transfers := l.transfers ++ [t] }.row t.transferId = some t := by
    rw [row, List.find?_append, show l.transfers.find? _ = none from hnone, Option.none_or,
      List.find?_singleton, if_pos (by simp)]
  have hstate : ∀ id', id' ≠ t.transferId →
      { l with transfers := l.transfers ++ [t] }.state id' = l.state id' := by
    intro id' hne
    rw [state, Accounts.row_append hne, state]
  have hfresh : ∀ b ∈ l.batches, b.transferId ≠ t.transferId := by
    intro b hb hid
    obtain ⟨r, hr, -, -⟩ := (h.each b hb).row
    rw [hid, hnone] at hr
    cases hr
  refine ⟨h.create hnew hmarks, rfl, ⟨t, hrow, rfl, rfl, hactive⟩, nofun, fun _ => ?_, hfresh,
    fun id' => ?_, fun b hb => hstate _ (hfresh b hb)⟩
  · rw [marks, hrow, Option.map_some, Option.getD_some, hmarks]
  · by_cases hid : id' = t.transferId
    · rw [hid, state, hrow, state, hnone, Option.map_some, hactive]
      exact ⟨nofun, nofun⟩
    · rw [hstate id' hid]

/-- The books of a download that has just begun. -/
theorem Opened.accounted {active : Option (TransferRecord H)} {id : TransferId} {l' : ChunkLedger H}
    {size : Nat} (h : Opened l active p hash id l')
    (hlt : ∀ i ∈ l'.marks id, i < chunkCount size) :
    Accounted
      { path := p, hash, transferId := id, chunkCount := chunkCount size
        receiver := ⟨id, p, size, hash, chunkCount size, l'.marks id,
          DownloadReceiver.durableBytes size (l'.marks id)⟩
        durableChunks := (l'.marks id).length, dirtyBytes := 0, dirtyChunks := [] } l' := by
  obtain ⟨t, ht, hpath, hhash, -⟩ := h.row
  exact
    { receiver_id := rfl
      receiver_count := rfl
      count_eq := rfl
      row := ⟨t, ht, hpath, hhash⟩
      accepted_nodup := (h.accounts.kept.pairwise_marks id).imp fun hlt => hlt.ne
      accepted_lt := hlt
      marked := fun _ hi => hi
      durable := rfl
      dirty_nodup := List.nodup_nil
      mem_dirty := fun i => ⟨nofun, fun hi => absurd hi.1 hi.2⟩
      dirtyBytes := rfl
      received := durableBytes_eq hlt }

end ChunkLedger

end VeritasSync
