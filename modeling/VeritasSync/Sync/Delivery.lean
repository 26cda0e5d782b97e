import Mathlib
import VeritasSync.Lib.Chunks
import VeritasSync.Sync.World

/-!
# A transfer from end to end

The four components of a transfer put together: the request that `BuildResumeRequest` makes from the
durable chunk marks, the chunks that `UploadSession` and `ChunkSource` read for it, and the
`DownloadReceiver` that writes them to the part file, marks them and commits the file.

The components agree on what a chunk is through `Chunks.piece`.  `Receiving` is the invariant of the
receiving side; `Delivery` runs it against chunks that arrive in any order and any number of times.

This is the one result about transfers that a user would ask for: a file that has been announced
arrives, with its content, if all the chunks do that the receiver does not have yet.  It is stated
from the receiver's request to the commit, so nothing about the two components in between has to be
believed, neither that the upload sends what was requested nor that the receiver accepts what was
sent.

Main results:

* `missingRanges_spec` — the request names the missing chunks, in order, each once;
* `drain_eq` — the upload sends exactly the chunks that were requested;
* `transfer_delivers` — the whole file is at its destination in the end.
-/

set_option autoImplicit false

namespace VeritasSync

variable {H : Type} [ContentHash H]

/-! ## The receiver on its storage -/

/-- The parts of a node that a `DownloadReceiver` refers to. -/
structure Store (H : Type) where
  folder : Folder
  db : Database H

namespace Store

/-- A folder operation: it takes effect as a whole, or raises and changes nothing. -/
def folderDo (f : Folder → Except Error Folder) : Exec (Store H) Error Unit :=
  Exec.atomic fun s => (f s.folder).map fun folder => ((), { s with folder })

/-- A database operation: it takes effect as a whole, or raises and changes nothing. -/
def dbDo (f : Database H → Except Error (Database H)) : Exec (Store H) Error Unit :=
  Exec.atomic fun s => (f s.db).map fun db => ((), { s with db })

omit [ContentHash H]

theorem folderDo_ok {f : Folder → Except Error Folder} {s : Store H} {folder : Folder}
    (h : f s.folder = .ok folder) : folderDo f s = (.ok (), { s with folder }) :=
  Exec.atomic_apply_ok (by rw [h]; rfl)

theorem dbDo_ok {f : Database H → Except Error (Database H)} {s : Store H} {db : Database H}
    (h : f s.db = .ok db) : dbDo f s = (.ok (), { s with db }) :=
  Exec.atomic_apply_ok (by rw [h]; rfl)

end Store

namespace DownloadReceiver

/-- `DownloadReceiver::AcceptChunk` with `persist` false: whether the chunk is new, and the receiver
afterwards. -/
def acceptChunk (receiver : DownloadReceiver H) (index offset : Nat) (bytes : Bytes)
    (chunkHash : H) : Exec (Store H) Error (Bool × DownloadReceiver H) := do
  Exec.check fun _ => receiver.checkChunk index offset bytes chunkHash
  if index ∈ receiver.accepted then pure (false, receiver)
  else
    Store.folderDo fun folder => folder.writePartialChunk receiver.relativePath offset bytes
    pure (true, receiver.accept index bytes.length)

/-- `DownloadReceiver::PersistAcceptedChunks`: the chunks are marked after the part file has been
flushed. -/
def persistAcceptedChunks (receiver : DownloadReceiver H) (chunkIndices : List Nat)
    (updatedAtMs : Int) : Exec (Store H) Error Unit := do
  Exec.check fun s => s.folder.flushPartial receiver.relativePath
  Store.dbDo fun db =>
    db.markTransferChunksCompleted receiver.transferId chunkIndices updatedAtMs

/-- `DownloadReceiver::Commit`: all chunks must be there, and their bytes must have the hash of the
file. -/
def commit (receiver : DownloadReceiver H) (completedAtMs : Int) : Exec (Store H) Error Unit := do
  Exec.check fun s => receiver.checkComplete s.db
  Store.folderDo fun folder =>
    folder.commitPartial receiver.relativePath receiver.expectedSize receiver.expectedHash
  Store.dbDo fun db => db.updateTransferState receiver.transferId .completed completedAtMs

variable {receiver receiver' : DownloadReceiver H} {s s' : Store H}

end DownloadReceiver

/-! ## Chunks of a file -/

/-- The chunk of a file that the upload of a transfer sends. -/
def chunkOf (transferId : TransferId) (content : Bytes) (index : Nat) : Chunk H where
  transferId := transferId
  fileHash := blake3 content
  offset := index * logicalChunkSize
  chunkHash := blake3 (Chunks.piece logicalChunkSize content index)
  bytes := Chunks.piece logicalChunkSize content index

theorem logicalChunkSize_pos : 0 < logicalChunkSize := by decide

/-- The three ways in which the sources count chunks agree. -/
theorem chunkCount_eq (size : Nat) : chunkCount size = Chunks.count logicalChunkSize size := by
  rw [chunkCount, Chunks.count]
  split
  · rename_i h
    rw [h]
    rfl
  · rfl

theorem chunkCount_pos {size : Nat} (h : 0 < size) : 0 < chunkCount size := by
  rw [chunkCount_eq, Chunks.lt_count_iff logicalChunkSize_pos]
  omega

theorem div_add_ite_eq_chunkCount (size : Nat) :
    size / logicalChunkSize + (if size % logicalChunkSize ≠ 0 then 1 else 0) = chunkCount size := by
  rw [chunkCount_eq, Chunks.count, logicalChunkSize]
  split <;> omega

theorem chunkLength_eq {content : Bytes} {index : Nat}
    (h : index < Chunks.count logicalChunkSize content.length) :
    chunkLength content.length index =
      (Chunks.piece logicalChunkSize content index).length := by
  rw [chunkLength, if_pos ((Chunks.lt_count_iff logicalChunkSize_pos).mp h), Chunks.length_piece]

theorem checkChunk_chunkOf {receiver : DownloadReceiver H} {content : Bytes} {index : Nat}
    (transferId : TransferId) (hsize : receiver.expectedSize = content.length)
    (hcount : receiver.chunkCount = chunkCount content.length)
    (h : index < chunkCount content.length) :
    receiver.checkChunk index (chunkOf (H := H) transferId content index).offset
      (chunkOf (H := H) transferId content index).bytes
      (chunkOf (H := H) transferId content index).chunkHash = .ok () := by
  have hlength := chunkLength_eq (chunkCount_eq _ ▸ h)
  rw [DownloadReceiver.checkChunk, if_neg]
  simp only [chunkOf, hsize, hcount, hlength, ne_eq, not_true_eq_false, or_false, ge_iff_le, not_le]
  exact h

/-! ## The request

The request names the chunks that have no mark, as ranges.  It is the only thing that the sender
knows about the state of the receiver. -/

/-- The chunks that a list of ranges names. -/
def expand (ranges : List ChunkRange) : List Nat :=
  ranges.flatMap fun range => List.range' range.firstChunk range.chunkCount

/-- From `cursor` on, no run of missing chunks is longer than a range can say. -/
def ShortGaps (total cursor : Nat) (completed : List Nat) : Prop :=
  ∀ first, cursor ≤ first → ∃ i < 2 ^ 32, total ≤ first + i ∨ first + i ∈ completed

/-- **The request names the missing chunks**, in order, each once, and no range is empty. -/
theorem missingRanges_spec {total cursor : Nat} {completed : List Nat}
    (hsorted : completed.Pairwise (· < ·))
    (hbounds : ∀ i ∈ completed, cursor ≤ i ∧ i < total) (hgaps : ShortGaps total cursor completed) :
    ∃ ranges, missingRanges total cursor completed = .ok ranges ∧
      expand ranges = Chunks.missing total cursor completed ∧
      ∀ range ∈ ranges, 0 < range.chunkCount := by
  induction completed generalizing cursor with
  | nil =>
    rw [missingRanges, Chunks.missing_nil]
    by_cases hcursor : cursor < total
    · obtain ⟨i, hi, hend | hmem⟩ := hgaps cursor le_rfl
      · rw [if_pos hcursor, if_neg (by omega)]
        refine ⟨_, rfl, by simp [expand], fun range hrange => ?_⟩
        rw [List.mem_singleton.mp hrange]
        exact Nat.sub_pos_of_lt hcursor
      · cases hmem
    · rw [if_neg hcursor, Nat.sub_eq_zero_of_le (not_lt.mp hcursor)]
      exact ⟨[], rfl, rfl, by simp⟩
  | cons chunk rest ih =>
    obtain ⟨hhead, htail⟩ := List.pairwise_cons.mp hsorted
    obtain ⟨hcursor, htotal⟩ := hbounds chunk List.mem_cons_self
    -- a gap is too long for a range only if it holds that many missing chunks
    have hshort : ¬ (chunk > cursor ∧ chunk - cursor > 2 ^ 32 - 1) := by
      rintro ⟨-, hlong⟩
      obtain ⟨i, hi, hend | hmem⟩ := hgaps cursor le_rfl
      · omega
      · rcases List.mem_cons.mp hmem with heq | hmem
        · omega
        · have := hhead _ hmem
          omega
    obtain ⟨ranges, hranges, hexpand, hpos⟩ := @ih (chunk + 1) htail
      (fun i hi => ⟨hhead i hi, (hbounds i (List.mem_cons_of_mem _ hi)).2⟩) (by
        intro first hfirst
        obtain ⟨i, hi, hend | hmem⟩ := hgaps first (by omega)
        · exact ⟨i, hi, .inl hend⟩
        · refine ⟨i, hi, .inr ((List.mem_cons.mp hmem).resolve_left ?_)⟩
          omega)
    rw [missingRanges, if_neg hshort, hranges, Chunks.missing_cons hcursor htotal hhead]
    refine ⟨_, rfl, ?_, ?_⟩
    · by_cases hgap : chunk > cursor
      · rw [if_pos hgap, ← hexpand]
        simp [expand]
      · rw [if_neg hgap, hexpand, Nat.sub_eq_zero_of_le (not_lt.mp hgap)]
        simp
    · by_cases hgap : chunk > cursor
      · rw [if_pos hgap]
        rintro range (_ | ⟨_, hrange⟩)
        · exact Nat.sub_pos_of_lt hgap
        · exact hpos range hrange
      · rw [if_neg hgap]
        exact hpos

/-! ## The upload -/

namespace UploadSession

/-- A call of `NextForTransport`. -/
def callNext (folder : Folder) (bufferedBytes : Nat) :
    Exec (UploadSession H) Error (Option (Chunk H)) := fun session =>
  session.nextForTransport folder bufferedBytes

/-- Calls of `NextForTransport`, each with the transport's buffered amount, and what they return. -/
def drain (folder : Folder) : List Nat → Exec (UploadSession H) Error (List (Chunk H))
  | [] => pure []
  | bufferedBytes :: rest => do
    let next ← callNext folder bufferedBytes
    let more ← drain folder rest
    pure (next.toList ++ more)

/-- The session uploads `content`, and has the given chunks still to send. -/
structure Sends (session : UploadSession H) (folder : Folder) (transferId : TransferId)
    (content : Bytes) (pending : List Nat) : Prop where
  transferId_eq : session.source.transferId = transferId
  fileHash_eq : session.source.fileHash = blake3 content
  readFile : folder.readFile session.source.sourcePath = some content
  stream : session.source.stream.getD content = content
  expand_eq : expand session.requestedRanges = pending
  range_pos : ∀ range ∈ session.requestedRanges, 0 < range.chunkCount
  lt_count : ∀ index ∈ pending, index < chunkCount content.length

variable {session : UploadSession H} {folder : Folder} {transferId : TransferId} {content : Bytes}
  {pending : List Nat} {index : Nat}

theorem Sends.readChunk (h : session.Sends folder transferId content pending)
    (hindex : index < chunkCount content.length) :
    session.source.readChunk folder index =
      (.ok (chunkOf transferId content index), { session.source with stream := some content }) := by
  rw [chunkCount_eq, Chunks.count] at hindex
  have hpiece : (content.drop (index * logicalChunkSize)).take
      (min logicalChunkSize (content.length - index * logicalChunkSize)) =
        Chunks.piece logicalChunkSize content index := by
    rw [Chunks.piece, ← List.length_drop, ← List.take_eq_take_min]
  rw [ChunkSource.readChunk, h.readFile]
  simp only [h.stream, hpiece, Chunks.length_piece, ne_eq, not_true_eq_false, if_false,
    h.transferId_eq, h.fileHash_eq]
  rw [if_neg (not_le.mpr hindex)]
  rfl

omit [ContentHash H] in
/-- After a call the first chunk of the first range is gone. -/
theorem expand_advanceRanges {range : ChunkRange} {ranges : List ChunkRange}
    (hpos : 0 < range.chunkCount) :
    expand (range :: ranges) = range.firstChunk :: expand (advanceRanges (range :: ranges)) := by
  obtain ⟨n, hn⟩ : ∃ n, range.chunkCount = n + 1 := ⟨_, (Nat.succ_pred_eq_of_pos hpos).symm⟩
  rw [advanceRanges]
  split
  · rename_i hlast
    simp [expand, show n = 0 by omega, hn]
  · simp [expand, hn, List.range'_succ]

omit [ContentHash H] in
theorem advanceRanges_pos {ranges : List ChunkRange}
    (hpos : ∀ range ∈ ranges, 0 < range.chunkCount) :
    ∀ range ∈ advanceRanges ranges, 0 < range.chunkCount := by
  cases ranges with
  | nil => exact hpos
  | cons range ranges =>
    intro r hr
    rw [advanceRanges] at hr
    split at hr
    · exact hpos r (List.mem_cons_of_mem _ hr)
    · rename_i hmore
      rcases List.mem_cons.mp hr with rfl | hr
      · exact Nat.pos_of_ne_zero hmore
      · exact hpos r (List.mem_cons_of_mem _ hr)

/-- Below the threshold, a call sends the next chunk. -/
theorem Sends.nextForTransport {first : Nat} {rest : List Nat}
    (h : session.Sends folder transferId content (first :: rest)) {bufferedBytes : Nat}
    (hbuffered : bufferedBytes < resumeBelowBytes) :
    ∃ session', session.nextForTransport folder bufferedBytes =
        (.ok (some (chunkOf transferId content first)), session') ∧
      session'.Sends folder transferId content rest := by
  cases hranges : session.requestedRanges with
  | nil =>
    have hexpand := h.expand_eq
    rw [hranges] at hexpand
    cases hexpand
  | cons range ranges =>
    have hpos : 0 < range.chunkCount := h.range_pos range (hranges ▸ List.mem_cons_self)
    have hexpand := h.expand_eq
    rw [hranges, expand_advanceRanges hpos] at hexpand
    obtain ⟨hfirst, hrest⟩ := List.cons.inj hexpand
    have hread := h.readChunk (h.lt_count first List.mem_cons_self)
    simp only [UploadSession.nextForTransport, hranges, hfirst,
      if_neg (not_le.mpr hbuffered), hread]
    refine ⟨_, rfl, ⟨h.transferId_eq, h.fileHash_eq, h.readFile, rfl, hrest, ?_, ?_⟩⟩
    · exact advanceRanges_pos (hranges ▸ h.range_pos)
    · exact fun index hindex => h.lt_count index (List.mem_cons_of_mem _ hindex)

/-- A call with nothing to send, or above the threshold, does nothing. -/
theorem Sends.nextForTransport_idle (h : session.Sends folder transferId content pending)
    {bufferedBytes : Nat} (hidle : pending = [] ∨ ¬ bufferedBytes < resumeBelowBytes) :
    session.nextForTransport folder bufferedBytes = (.ok none, session) := by
  cases hranges : session.requestedRanges with
  | nil => simp only [UploadSession.nextForTransport, hranges]
  | cons range ranges =>
    rcases hidle with rfl | hfull
    · have hexpand := h.expand_eq
      rw [hranges, expand_advanceRanges (h.range_pos range (hranges ▸
        List.mem_cons_self))] at hexpand
      cases hexpand
    · simp only [UploadSession.nextForTransport, hranges, if_pos (not_lt.mp hfull)]

theorem Sends.hasPending_iff (h : session.Sends folder transferId content pending) :
    session.hasPending ↔ pending ≠ [] := by
  rw [hasPending, decide_eq_true_iff, not_iff_not, ← h.expand_eq]
  cases hranges : session.requestedRanges with
  | nil => exact ⟨fun _ => rfl, fun _ => rfl⟩
  | cons range ranges =>
    rw [expand_advanceRanges (h.range_pos range (hranges ▸ List.mem_cons_self))]
    exact ⟨nofun, nofun⟩

/-- **The upload sends exactly the requested chunks.**  Each call below the threshold sends the next
one, whatever the transport's buffer was in between. -/
theorem drain_eq (h : session.Sends folder transferId content pending) (buffered : List Nat) :
    ∃ session', drain folder buffered session =
        (.ok ((pending.take (buffered.countP (· < resumeBelowBytes))).map
          (chunkOf transferId content)), session') ∧
      session'.Sends folder transferId content
        (pending.drop (buffered.countP (· < resumeBelowBytes))) := by
  induction buffered generalizing session pending with
  | nil => exact ⟨session, rfl, h⟩
  | cons bufferedBytes rest ih =>
    by_cases hidle : pending = [] ∨ ¬ bufferedBytes < resumeBelowBytes
    · obtain ⟨session', hdrain, hsends⟩ := ih h
      have hcount : pending.take ((bufferedBytes :: rest).countP (· < resumeBelowBytes)) =
            pending.take (rest.countP (· < resumeBelowBytes)) ∧
          pending.drop ((bufferedBytes :: rest).countP (· < resumeBelowBytes)) =
            pending.drop (rest.countP (· < resumeBelowBytes)) := by
        rcases hidle with rfl | hfull
        · simp
        · rw [List.countP_cons_of_neg (by simpa using hfull)]
          exact ⟨rfl, rfl⟩
      rw [hcount.1, hcount.2]
      refine ⟨session', ?_, hsends⟩
      rw [drain, Exec.bind_apply_ok (m := callNext folder bufferedBytes)
        (h.nextForTransport_idle hidle), Exec.bind_apply_ok hdrain]
      rfl
    · rw [not_or, not_not] at hidle
      obtain ⟨hne, hbuffered⟩ := hidle
      obtain ⟨first, pending, rfl⟩ := List.exists_cons_of_ne_nil hne
      obtain ⟨next, hnext, hsends⟩ := h.nextForTransport hbuffered
      obtain ⟨session', hdrain, hsends'⟩ := ih hsends
      rw [List.countP_cons_of_pos (by simpa using hbuffered), List.take_succ_cons,
        List.drop_succ_cons]
      refine ⟨session', ?_, hsends'⟩
      rw [drain, Exec.bind_apply_ok (m := callNext folder bufferedBytes) hnext,
        Exec.bind_apply_ok hdrain]
      rfl

end UploadSession

/-! ## The receiving side

`Receiving` says what the part file, the bitmap and the marks have to do with each other while the
file is incomplete.  It is stated with `Chunks.Agrees`, so a chunk that arrives a second time, or
out of order, is not a case of its own. -/

theorem writeAt_eq_overwrite (content : Bytes) (offset : Nat) (bytes : Bytes) :
    Folder.writeAt content offset bytes = Chunks.overwrite 0 content offset bytes := rfl

/-- The receiver of a transfer of `content` to `path`.  What has been accepted is in the part file,
and is either marked in the database or `dirty`. -/
structure Receiving (s : Store H) (receiver : DownloadReceiver H) (dirty : List Nat)
    (transferId : TransferId) (path : Path) (content : Bytes) : Prop where
  transferId_eq : receiver.transferId = transferId
  relativePath_eq : receiver.relativePath = path
  expectedSize_eq : receiver.expectedSize = content.length
  expectedHash_eq : receiver.expectedHash = blake3 content
  chunkCount_eq : receiver.chunkCount = chunkCount content.length
  receives : s.folder.Receives path
  agrees : Chunks.Agrees logicalChunkSize (s.folder.partContent path) content receiver.accepted
  accepted_lt : ∀ i ∈ receiver.accepted, i < chunkCount content.length
  mem_accepted : ∀ i, i ∈ receiver.accepted ↔
    i ∈ s.db.completedTransferChunks transferId ∨ i ∈ dirty
  sorted : (s.db.completedTransferChunks transferId).Pairwise (· < ·)
  transfer : (s.db.findTransfer transferId).isSome

namespace Receiving

variable {s : Store H} {receiver : DownloadReceiver H} {dirty : List Nat} {transferId : TransferId}
  {path : Path} {content : Bytes}

/-- The part file is there as soon as a chunk has been accepted. -/
theorem part_of_accepted (h : Receiving s receiver dirty transferId path content) {i : Nat}
    (hi : i ∈ receiver.accepted) :
    s.folder.tree.find (Folder.partPath path) = some (.file (s.folder.partContent path)) := by
  have hne := h.agrees.ne_nil logicalChunkSize_pos hi
    (by rw [← VeritasSync.chunkCount_eq]; exact h.accepted_lt i hi)
  have hpart := h.receives.part
  rw [Folder.partContent, Folder.readFile] at hne ⊢
  cases hfind : s.folder.tree.find (Folder.partPath path) with
  | none =>
    rw [hfind] at hne
    exact absurd rfl hne
  | some n =>
    cases n with
    | file b => rfl
    | directory => exact absurd hfind hpart

/-- A chunk of the file that arrives is accepted, once. -/
theorem acceptChunk (h : Receiving s receiver dirty transferId path content)
    (hsize : content.length ≤ Database.int64Max) {index : Nat}
    (hindex : index < chunkCount content.length) :
    let chunk : Chunk H := chunkOf transferId content index
    ∃ fresh receiver' s', receiver.acceptChunk index chunk.offset chunk.bytes chunk.chunkHash s =
        (.ok (fresh, receiver'), s') ∧
      Receiving s' receiver' (if fresh then dirty ++ [index] else dirty) transferId path content ∧
      ∀ i, i ∈ receiver'.accepted ↔ i = index ∨ i ∈ receiver.accepted := by
  intro chunk
  have hcheck := checkChunk_chunkOf transferId h.expectedSize_eq h.chunkCount_eq hindex
  rw [DownloadReceiver.acceptChunk, Exec.bind_apply_ok (Exec.check_apply_ok
    (f := fun _ => receiver.checkChunk index chunk.offset chunk.bytes chunk.chunkHash) hcheck)]
  by_cases hmem : index ∈ receiver.accepted
  · rw [if_pos hmem]
    refine ⟨false, receiver, s, rfl, h, fun i => ⟨.inr, ?_⟩⟩
    rintro (rfl | hi)
    · exact hmem
    · exact hi
  · have hcount : index < Chunks.count logicalChunkSize content.length :=
      VeritasSync.chunkCount_eq _ ▸ hindex
    have hstart : index * logicalChunkSize < content.length :=
      (Chunks.lt_count_iff logicalChunkSize_pos).mp hcount
    have hlength : chunk.bytes.length ≤ logicalChunkSize := by
      show (Chunks.piece logicalChunkSize content index).length ≤ _
      rw [Chunks.length_piece]
      omega
    have hmax : Database.int64Max + logicalChunkSize ≤ 2 ^ 64 - 1 := by decide
    have hoffset : chunk.offset ≤ Database.int64Max := by
      show index * logicalChunkSize ≤ _
      omega
    obtain ⟨folder, hwrite, hput⟩ := h.receives.writePartialChunk hoffset
      (show chunk.bytes.length ≤ _ by omega)
    rw [← h.relativePath_eq] at hwrite
    rw [if_neg hmem, Exec.bind_apply_ok (Store.folderDo_ok
      (f := fun folder => folder.writePartialChunk receiver.relativePath chunk.offset chunk.bytes)
      hwrite)]
    refine ⟨true, _, _, rfl, ?_, fun i => List.mem_cons⟩
    have hpart : folder.partContent path =
        Folder.writeAt (s.folder.partContent path) chunk.offset chunk.bytes := by
      rw [Folder.partContent, Folder.readFile, hput.find, if_pos rfl, Option.getD_some]
    exact
      { h with
        receives := h.receives.of_put hput
        agrees := by
          rw [hpart, writeAt_eq_overwrite]
          exact h.agrees.overwrite logicalChunkSize_pos hcount
        accepted_lt := fun i hi => by
          rcases List.mem_cons.mp hi with rfl | hi
          · exact hindex
          · exact h.accepted_lt i hi
        mem_accepted := fun i => by
          rw [DownloadReceiver.accepted_accept, List.mem_cons, h.mem_accepted, if_pos rfl,
            List.mem_append, List.mem_singleton]
          tauto }

/-- The dirty chunks are marked. -/
theorem persist (h : Receiving s receiver dirty transferId path content)
    (hsize : content.length ≤ Database.int64Max) (hdirty : dirty ≠ []) {now : Int}
      (hnow : 0 < now) :
    ∃ s', receiver.persistAcceptedChunks dirty now s = (.ok (), s') ∧
      Receiving s' receiver [] transferId path content := by
  obtain ⟨i, rest, hcons⟩ := List.exists_cons_of_ne_nil hdirty
  have hacc : ∀ k ∈ dirty, k ∈ receiver.accepted := fun k hk => (h.mem_accepted k).mpr (.inr hk)
  have hpart := h.part_of_accepted (hacc i (hcons ▸ List.mem_cons_self))
  have hflush : s.folder.flushPartial receiver.relativePath = .ok () := by
    rw [h.relativePath_eq, Folder.flushPartial, h.receives.resolves,
      Folder.rejectSymlink_ok (h.receives.links _ (.inr (.inl rfl)))]
    simp [bind, Except.bind, Folder.isRegularFile, hpart, pure, Except.pure]
  -- an index of the file is within what a column of the database can hold
  have hvalid : ¬ (dirty = [] ∨ now ≤ 0 ∨ dirty.any fun k => k > Database.int64Max) := by
    rintro (hnil | hle | hany)
    · exact hdirty hnil
    · omega
    · obtain ⟨k, hk, hbig⟩ := List.any_eq_true.mp hany
      have hlt := h.accepted_lt k (hacc k hk)
      rw [VeritasSync.chunkCount_eq, Chunks.lt_count_iff logicalChunkSize_pos] at hlt
      have : k ≤ k * logicalChunkSize := Nat.le_mul_of_pos_right k logicalChunkSize_pos
      have : k > Database.int64Max := of_decide_eq_true hbig
      omega
  obtain ⟨t, ht⟩ := Option.isSome_iff_exists.mp h.transfer
  obtain ⟨transfers, hupdate, hfind⟩ := Database.updateTransfer_spec (f := fun t =>
    { t with
      completedChunks := dirty.foldl (fun done i => Database.insertIndex i done) t.completedChunks
      updatedAtMs := now }) ht fun _ => rfl
  have hmark : s.db.markTransferChunksCompleted receiver.transferId dirty now =
      .ok { s.db with transfers } := by
    rw [Database.markTransferChunksCompleted, if_neg hvalid, h.transferId_eq, hupdate]
  have hold : s.db.completedTransferChunks transferId = t.completedChunks := by
    rw [Database.completedTransferChunks, ht]
    rfl
  have hnew : { s.db with transfers }.completedTransferChunks transferId =
      dirty.foldl (fun done i => Database.insertIndex i done) t.completedChunks := by
    rw [Database.completedTransferChunks, hfind, if_pos rfl]
    rfl
  obtain ⟨hsorted, hmem⟩ := Database.foldl_insertIndex dirty (hold ▸ h.sorted)
  rw [DownloadReceiver.persistAcceptedChunks, Exec.bind_apply_ok (Exec.check_apply_ok
    (f := fun s : Store H => s.folder.flushPartial receiver.relativePath) hflush), Store.dbDo_ok
    (f := fun db => db.markTransferChunksCompleted receiver.transferId dirty now) hmark]
  refine ⟨_, rfl, { h with mem_accepted := fun k => ?_, sorted := ?_, transfer := ?_ }⟩
  · rw [h.mem_accepted, hnew, hmem, hold]
    simp [or_comm]
  · rw [hnew]
    exact hsorted
  · rw [hfind, if_pos rfl]
    rfl

/-- A complete file is committed. -/
theorem commit (h : Receiving s receiver [] transferId path content) (hpos : 0 < content.length)
    (hall : ∀ i < chunkCount content.length, i ∈ receiver.accepted) {now : Int} (hnow : 0 < now) :
    ∃ s', receiver.commit now s = (.ok (), s') ∧
      s'.folder.tree.find path = some (.file content) ∧
      (∀ q, q ≠ path → q ≠ Folder.partPath path → s'.folder.tree.find q = s.folder.tree.find q) ∧
      s'.folder.tree.find (Folder.partPath path) = none ∧
      (s'.db.findTransfer transferId).map TransferRecord.state = some .completed := by
  have hpart := h.part_of_accepted (hall 0 (chunkCount_pos hpos))
  have hcontent : s.folder.partContent path = content :=
    h.agrees.eq logicalChunkSize_pos fun i hi => hall i (VeritasSync.chunkCount_eq _ ▸ hi)
  rw [hcontent] at hpart
  have hmarks : s.db.completedTransferChunks transferId =
    List.range (chunkCount content.length) := by
    refine List.Pairwise.eq_of_mem_iff h.sorted List.pairwise_lt_range fun i => ?_
    have hmem := h.mem_accepted i
    simp only [List.not_mem_nil, or_false] at hmem
    rw [List.mem_range, ← hmem]
    exact ⟨h.accepted_lt i, hall i⟩
  have hcheck : receiver.checkComplete s.db = .ok () := by
    rw [DownloadReceiver.checkComplete, h.transferId_eq, h.chunkCount_eq, if_pos hmarks]
  obtain ⟨folder, hcommit⟩ := Folder.commitPartial_ok (H := H) h.receives.resolves
    ⟨h.receives.links _ (.inl rfl), h.receives.links _ (.inr (.inl rfl))⟩ hpart
    h.receives.destination
  obtain ⟨c, hc, -, -, -, -, hfind⟩ := Folder.commitPartial_eq_ok hcommit
  obtain rfl : content = c := by simpa using hpart.symm.trans hc
  obtain ⟨t, ht⟩ := Option.isSome_iff_exists.mp h.transfer
  obtain ⟨transfers, hupdate, htransfer⟩ := Database.updateTransfer_spec (f := fun t =>
    { t with state := .completed, updatedAtMs := now }) ht fun _ => rfl
  have hstate : s.db.updateTransferState receiver.transferId .completed now =
      .ok { s.db with transfers } := by
    rw [Database.updateTransferState, if_neg (by omega), h.transferId_eq, hupdate]
  rw [← h.relativePath_eq, ← h.expectedSize_eq, ← h.expectedHash_eq] at hcommit
  rw [DownloadReceiver.commit, Exec.bind_apply_ok (Exec.check_apply_ok
    (f := fun s : Store H => receiver.checkComplete s.db) hcheck),
    Exec.bind_apply_ok (Store.folderDo_ok (f := fun folder => folder.commitPartial
      receiver.relativePath receiver.expectedSize receiver.expectedHash) hcommit), Store.dbDo_ok
    (f := fun db => db.updateTransferState receiver.transferId .completed now)
    (s := { s with folder }) hstate]
  refine ⟨_, rfl, ?_, fun q hq hqpart => ?_, ?_, ?_⟩
  · rw [hfind, if_pos rfl]
  · rw [hfind, if_neg hq, if_neg hqpart]
  · rw [hfind, if_neg (Folder.partPath_ne path).symm, if_pos rfl]
  · rw [htransfer, if_pos rfl]
    rfl

end Receiving

/-! ## A whole delivery -/

/-- A download as its node keeps it: the receiver and the chunks that are not yet marked. -/
structure Delivery (H : Type) where
  store : Store H
  receiver : DownloadReceiver H
  dirtyChunks : List Nat

/-- What happens to a download: a chunk arrives, or the node marks the dirty chunks. -/
inductive Arrival (H : Type) where
  | chunk (chunk : Chunk H)
  | persist (nowMs : { t : Int // 0 < t })

namespace Delivery

/-- Run a function of the receiver. -/
def onStore {α : Type} (m : Exec (Store H) Error α) : Exec (Delivery H) Error α := fun d =>
  ((m d.store).1, { d with store := (m d.store).2 })

/-- `PersistDownloadChunks`: what is dirty is marked, and then no longer dirty. -/
def persistDownloadChunks (nowMs : Int) : Exec (Delivery H) Error Unit := do
  let d ← Exec.state
  if d.dirtyChunks = [] then pure ()
  else
    onStore (d.receiver.persistAcceptedChunks d.dirtyChunks nowMs)
    Exec.update fun d => { d with dirtyChunks := [] }

/-- An arrival, as `AcceptChunk` and `PersistPendingDownloads` treat it. -/
def step : Arrival H → Exec (Delivery H) Error Unit
  | .chunk chunk => do
    let d ← Exec.state
    let index := chunk.offset / logicalChunkSize
    let (fresh, receiver) ← onStore
      (d.receiver.acceptChunk index chunk.offset chunk.bytes chunk.chunkHash)
    Exec.update fun d =>
      { d with receiver, dirtyChunks := if fresh then d.dirtyChunks ++ [index] else d.dirtyChunks }
  | .persist nowMs => persistDownloadChunks nowMs.1

/-- Everything that arrives, then the last marks and the commit. -/
def deliver (arrivals : List (Arrival H)) (nowMs : Int) : Exec (Delivery H) Error Unit := do
  arrivals.forM step
  persistDownloadChunks nowMs
  let d ← Exec.state
  onStore (d.receiver.commit nowMs)

/-- The invariant of a delivery. -/
def Good (d : Delivery H) (transferId : TransferId) (path : Path) (content : Bytes) : Prop :=
  Receiving d.store d.receiver d.dirtyChunks transferId path content

variable {d : Delivery H} {transferId : TransferId} {path : Path} {content : Bytes}

omit [ContentHash H] in
theorem onStore_ok {α : Type} {m : Exec (Store H) Error α} {a : α} {s : Store H}
    (h : m d.store = (.ok a, s)) : onStore m d = (.ok a, { d with store := s }) := by
  rw [onStore, h]

theorem Good.persist (h : d.Good transferId path content)
    (hsize : content.length ≤ Database.int64Max) {now : Int} (hnow : 0 < now) :
    ∃ d', persistDownloadChunks now d = (.ok (), d') ∧ d'.Good transferId path content ∧
      d'.dirtyChunks = [] ∧ d'.receiver = d.receiver := by
  rw [persistDownloadChunks, Exec.bind_apply_ok (Exec.state_apply d)]
  by_cases hdirty : d.dirtyChunks = []
  · rw [if_pos hdirty]
    exact ⟨d, rfl, h, hdirty, rfl⟩
  · obtain ⟨s', hpersist, hreceiving⟩ := Receiving.persist h hsize hdirty hnow
    rw [if_neg hdirty, Exec.bind_apply_ok (onStore_ok hpersist)]
    exact ⟨_, rfl, hreceiving, rfl, rfl⟩

/-- The chunks of `content` with the given indices. -/
def ChunkOfFile (transferId : TransferId) (content : Bytes) (chunk : Chunk H) : Prop :=
  ∃ index < chunkCount content.length, chunk = chunkOf transferId content index

/-- One arrival keeps the invariant, and accepts the chunk that arrived. -/
theorem Good.step (h : d.Good transferId path content)
    (hsize : content.length ≤ Database.int64Max) (arrival : Arrival H)
    (hchunk : ∀ chunk, arrival = .chunk chunk → ChunkOfFile transferId content chunk) :
    ∃ d', step arrival d = (.ok (), d') ∧ d'.Good transferId path content ∧
      (∀ i ∈ d.receiver.accepted, i ∈ d'.receiver.accepted) ∧
      ∀ index < chunkCount content.length, arrival = .chunk (chunkOf transferId content index) →
        index ∈ d'.receiver.accepted := by
  cases arrival with
  | persist now =>
    obtain ⟨d', hstep, hgood, -, hreceiver⟩ := h.persist hsize now.2
    refine ⟨d', hstep, hgood, fun i hi => hreceiver ▸ hi, nofun⟩
  | chunk chunk =>
    obtain ⟨index, hindex, rfl⟩ := hchunk chunk rfl
    obtain ⟨fresh, receiver, s', haccept, hreceiving, haccepted⟩ :=
      Receiving.acceptChunk h hsize hindex
    have hdiv : (chunkOf (H := H) transferId content index).offset / logicalChunkSize = index :=
      Nat.mul_div_cancel _ logicalChunkSize_pos
    have hsame : ∀ i, (chunkOf transferId content index : Chunk H) = chunkOf transferId content i →
        i = index := fun i hi =>
      (Nat.eq_of_mul_eq_mul_right logicalChunkSize_pos (congrArg Chunk.offset hi)).symm
    rw [Delivery.step, Exec.bind_apply_ok (Exec.state_apply d), hdiv,
      Exec.bind_apply_ok (onStore_ok haccept)]
    refine ⟨_, rfl, hreceiving, fun i hi => (haccepted i).mpr (.inr hi), fun i _ hi => ?_⟩
    exact (haccepted i).mpr (.inl (hsame i (Arrival.chunk.inj hi)))

/-- Any sequence of arrivals keeps the invariant. -/
theorem Good.forM (h : d.Good transferId path content)
    (hsize : content.length ≤ Database.int64Max) (arrivals : List (Arrival H))
    (hchunks : ∀ chunk, .chunk chunk ∈ arrivals → ChunkOfFile transferId content chunk) :
    ∃ d', arrivals.forM Delivery.step d = (.ok (), d') ∧ d'.Good transferId path content ∧
      (∀ i ∈ d.receiver.accepted, i ∈ d'.receiver.accepted) ∧
      ∀ index < chunkCount content.length,
        .chunk (chunkOf transferId content index) ∈ arrivals → index ∈ d'.receiver.accepted := by
  induction arrivals generalizing d with
  | nil => exact ⟨d, rfl, h, fun _ hi => hi, nofun⟩
  | cons arrival rest ih =>
    obtain ⟨d', hstep, hgood, hmono, hnew⟩ := h.step hsize arrival fun chunk hchunk =>
      hchunks chunk (hchunk ▸ List.mem_cons_self)
    obtain ⟨d'', hrest, hgood', hmono', hnew'⟩ := ih hgood fun chunk hchunk =>
      hchunks chunk (List.mem_cons_of_mem _ hchunk)
    refine ⟨d'', ?_, hgood', fun i hi => hmono' i (hmono i hi), fun index hindex hmem => ?_⟩
    · rw [show (arrival :: rest).forM Delivery.step =
        (Delivery.step arrival >>= fun _ => rest.forM Delivery.step) from rfl,
        Exec.bind_apply_ok hstep, hrest]
    · rcases List.mem_cons.mp hmem with heq | hmem
      · exact hmono' index (hnew index hindex heq.symm)
      · exact hnew' index hindex hmem

/-- A delivery of all the chunks that were missing ends with the file at its destination. -/
theorem Good.deliver (h : d.Good transferId path content) (hpos : 0 < content.length)
    (hsize : content.length ≤ Database.int64Max) (arrivals : List (Arrival H))
    (hchunks : ∀ chunk, .chunk chunk ∈ arrivals → ChunkOfFile transferId content chunk)
    (hall : ∀ index < chunkCount content.length, index ∉ d.receiver.accepted →
      .chunk (chunkOf transferId content index) ∈ arrivals) {now : Int} (hnow : 0 < now) :
    ∃ d', Delivery.deliver arrivals now d = (.ok (), d') ∧
      d'.store.folder.tree.find path = some (.file content) ∧
      d'.store.folder.tree.find (Folder.partPath path) = none ∧
      (d'.store.db.findTransfer transferId).map TransferRecord.state = some .completed := by
  obtain ⟨d₁, harrivals, hgood₁, hmono, hnew⟩ := h.forM hsize arrivals hchunks
  obtain ⟨d₂, hpersist, hgood₂, hdirty, hreceiver⟩ := hgood₁.persist hsize hnow
  have haccepted : ∀ i < chunkCount content.length, i ∈ d₂.receiver.accepted := by
    intro i hi
    rw [hreceiver]
    by_cases hmem : i ∈ d.receiver.accepted
    · exact hmono i hmem
    · exact hnew i hi (hall i hi hmem)
  rw [Good, hdirty] at hgood₂
  obtain ⟨s', hcommit, hfile, -, hpart, hstate⟩ := hgood₂.commit hpos haccepted hnow
  refine ⟨{ d₂ with store := s' }, ?_, hfile, hpart, hstate⟩
  rw [Delivery.deliver, Exec.bind_apply_ok harrivals, Exec.bind_apply_ok hpersist,
    Exec.bind_apply_ok (Exec.state_apply d₂), onStore_ok hcommit]

end Delivery

/-! ## From end to end -/

/-- The state in which a transfer of `content` to `path` is begun or resumed: the database marks the
chunks in `marked`, and the part file holds them. -/
structure Resumable (s : Store H) (transferId : TransferId) (path : Path) (content : Bytes)
    (marked : Nat → Bool) : Prop where
  receives : s.folder.Receives path
  marks : (s.db.findTransfer transferId).map TransferRecord.completedChunks =
    some ((List.range (chunkCount content.length)).filter marked)
  agrees : Chunks.Agrees logicalChunkSize (s.folder.partContent path) content
    ((List.range (chunkCount content.length)).filter marked)

/-- The chunks that are not marked. -/
def missingChunks (content : Bytes) (marked : Nat → Bool) : List Nat :=
  (List.range (chunkCount content.length)).filter fun i => !marked i

namespace Resumable

variable {s : Store H} {transferId : TransferId} {path : Path} {content : Bytes}
  {marked : Nat → Bool}

omit [ContentHash H] in
theorem completedTransferChunks_eq (h : Resumable s transferId path content marked) :
    s.db.completedTransferChunks transferId =
      (List.range (chunkCount content.length)).filter marked := by
  rw [Database.completedTransferChunks, h.marks, Option.getD_some]

omit [ContentHash H] in
theorem mem_completedTransferChunks (h : Resumable s transferId path content marked) {i : Nat} :
    i ∈ s.db.completedTransferChunks transferId ↔ i < chunkCount content.length ∧ marked i := by
  rw [h.completedTransferChunks_eq, List.mem_filter, List.mem_range]

omit [ContentHash H] in
theorem sorted (h : Resumable s transferId path content marked) :
    (s.db.completedTransferChunks transferId).Pairwise (· < ·) := by
  rw [h.completedTransferChunks_eq]
  exact List.pairwise_lt_range.filter _

omit [ContentHash H] in
/-- No mark is out of range. -/
theorem not_any_ge (h : Resumable s transferId path content marked) :
    ¬ ((s.db.completedTransferChunks transferId).any fun i =>
      i ≥ chunkCount content.length) = true := by
  rw [List.any_eq_true]
  rintro ⟨i, hi, hge⟩
  exact absurd (h.mem_completedTransferChunks.mp hi).1 (not_lt.mpr (of_decide_eq_true hge))

/-- The constructor of the receiver accepts the marks. -/
theorem create (h : Resumable s transferId path content marked) (hpos : 1 ≤ content.length) :
    ∃ receiver, DownloadReceiver.create s.db transferId path content.length (blake3 content : H)
        (chunkCount content.length) = .ok receiver ∧
      Receiving s receiver [] transferId path content := by
  have hpath : path ≠ [] := by
    rintro rfl
    cases h.receives.resolves
  have hcount := (chunkCount_pos hpos).ne'
  refine ⟨⟨transferId, path, content.length, blake3 content, chunkCount content.length,
    s.db.completedTransferChunks transferId,
    DownloadReceiver.durableBytes content.length (s.db.completedTransferChunks transferId)⟩, ?_, ?_⟩
  · rw [DownloadReceiver.create, if_neg (not_or.mpr ⟨hpath, hcount⟩),
      if_neg (not_not.mpr (div_add_ite_eq_chunkCount _)), if_neg h.not_any_ge]
    rfl
  · have hmarks := h.marks
    exact
      { transferId_eq := rfl
        relativePath_eq := rfl
        expectedSize_eq := rfl
        expectedHash_eq := rfl
        chunkCount_eq := rfl
        receives := h.receives
        agrees := by rw [h.completedTransferChunks_eq]; exact h.agrees
        accepted_lt := fun i hi => (h.mem_completedTransferChunks.mp hi).1
        mem_accepted := by simp
        sorted := h.sorted
        transfer := by
          cases hfind : s.db.findTransfer transferId with
          | none =>
            rw [hfind] at hmarks
            cases hmarks
          | some t => rfl }

omit [ContentHash H] in
/-- The request for the chunks that are not marked. -/
theorem missingChunkRanges (h : Resumable s transferId path content marked)
    (hpos : 1 ≤ content.length)
    (hgaps : ∀ first, ∃ i < 2 ^ 32, chunkCount content.length ≤ first + i ∨ marked (first + i)) :
    ∃ ranges, VeritasSync.missingChunkRanges (chunkCount content.length)
        (s.db.completedTransferChunks transferId) = .ok ranges ∧
      expand ranges = missingChunks content marked ∧ ∀ range ∈ ranges, 0 < range.chunkCount := by
  have hcount := (chunkCount_pos hpos).ne'
  obtain ⟨ranges, hranges, hexpand, hrange⟩ := @missingRanges_spec
    (chunkCount content.length) 0 _ h.sorted
    (fun i hi => ⟨Nat.zero_le i, (h.mem_completedTransferChunks.mp hi).1⟩) (by
      intro first _
      obtain ⟨i, hi, hend | hmarked⟩ := hgaps first
      · exact ⟨i, hi, .inl hend⟩
      · by_cases hlt : first + i < chunkCount content.length
        · exact ⟨i, hi, .inr (h.mem_completedTransferChunks.mpr ⟨hlt, hmarked⟩)⟩
        · exact ⟨i, hi, .inl (not_lt.mp hlt)⟩)
  refine ⟨ranges, ?_, ?_, hrange⟩
  · rw [VeritasSync.missingChunkRanges, if_neg hcount, if_neg h.not_any_ge]
    exact hranges
  · rw [hexpand, Chunks.missing, missingChunks, ← List.range_eq_range', Nat.sub_zero]
    refine List.filter_congr fun i hi => ?_
    rw [List.mem_range] at hi
    rw [Bool.eq_iff_iff, decide_eq_true_iff, h.mem_completedTransferChunks, Bool.not_eq_true']
    simp [hi]

end Resumable

/-- The session that `HandleFileRequest` opens for a request. -/
def openUpload (sourcePath : Path) (transferId : TransferId) (fileHash : H) : UploadSession H :=
  ⟨⟨sourcePath, transferId, fileHash, none⟩, []⟩

/-- **A transfer delivers the file.**  From any set of chunks that are marked and present, the
request can be made unless it needs a range of more than `2 ^ 32 - 1` chunks; the upload then sends
the missing chunks in order, each once, at whatever pace the transport allows; and when these
arrive, in any order and any number of times, with the marks written at any moments in between, the
commit succeeds and leaves the source's bytes at the destination. -/
theorem transfer_delivers (content : Bytes) (hpos : 1 ≤ content.length)
    (hsize : content.length ≤ Database.int64Max) (source : Folder) (sourcePath : Path)
    (hsource : source.readFile sourcePath = some content) (s : Store H) (transferId : TransferId)
    (path : Path) (marked : Nat → Bool) (h : Resumable s transferId path content marked)
    (hgaps : ∀ first, ∃ i < 2 ^ 32, chunkCount content.length ≤ first + i ∨ marked (first + i)) :
    ∃ receiver request session,
      DownloadReceiver.create s.db transferId path content.length (blake3 content : H)
        (chunkCount content.length) = .ok receiver ∧
      receiver.resumeRequest s.db = .ok request ∧
      (openUpload sourcePath transferId (blake3 content)).queueRequested source request =
        .ok session ∧
      (∀ buffered, ∃ session', UploadSession.drain source buffered session =
          (.ok (((missingChunks content marked).take
            (buffered.countP (· < UploadSession.resumeBelowBytes))).map
              (chunkOf transferId content)), session') ∧
        (session'.hasPending ↔ buffered.countP (· < UploadSession.resumeBelowBytes) <
          (missingChunks content marked).length)) ∧
      ∀ (arrivals : List (Arrival H)) (now : Int), 0 < now →
        (∀ chunk, .chunk chunk ∈ arrivals ↔
          chunk ∈ (missingChunks content marked).map (chunkOf transferId content)) →
        ∃ d, Delivery.deliver arrivals now ⟨s, receiver, []⟩ = (.ok (), d) ∧
          d.store.folder.readFile path = some content := by
  obtain ⟨receiver, hcreate, hreceiving⟩ := h.create hpos
  obtain ⟨ranges, hranges, hexpand, hrange⟩ := h.missingChunkRanges hpos hgaps
  have hmem : ∀ i, i ∈ missingChunks content marked ↔
      i < chunkCount content.length ∧ i ∉ receiver.accepted := by
    intro i
    rw [hreceiving.mem_accepted, h.completedTransferChunks_eq, missingChunks]
    simp only [List.mem_filter, List.mem_range, Bool.not_eq_true', List.not_mem_nil, or_false,
      not_and, Bool.not_eq_true]
    exact and_congr_right fun hi => ⟨fun hm _ => hm, fun hm => hm hi⟩
  have hrequest : receiver.resumeRequest s.db = .ok ⟨transferId, blake3 content, ranges⟩ := by
    rw [DownloadReceiver.resumeRequest, hreceiving.chunkCount_eq, hreceiving.transferId_eq,
      hreceiving.expectedHash_eq, hranges]
    rfl
  have hqueue : (openUpload sourcePath transferId (blake3 content : H)).queueRequested source
      ⟨transferId, blake3 content, ranges⟩ =
        .ok ⟨⟨sourcePath, transferId, blake3 content, none⟩, ranges⟩ := by
    rw [UploadSession.queueRequested, ChunkSource.validateRequest]
    simp [openUpload, hsource, bind, Except.bind, pure, Except.pure]
  have hsends : UploadSession.Sends (H := H) ⟨⟨sourcePath, transferId, blake3 content, none⟩,
    ranges⟩
      source transferId content (missingChunks content marked) :=
    ⟨rfl, rfl, hsource, rfl, hexpand, hrange, fun i hi => ((hmem i).mp hi).1⟩
  refine ⟨receiver, _, _, hcreate, hrequest, hqueue, fun buffered => ?_, ?_⟩
  · obtain ⟨session', hdrain, hsends'⟩ := UploadSession.drain_eq hsends buffered
    refine ⟨session', hdrain, ?_⟩
    rw [hsends'.hasPending_iff, Ne, List.drop_eq_nil_iff, not_le]
  -- in whatever order they come, the arrivals are the chunks without a mark
  · intro arrivals now hnow harrivals
    have hgood : Delivery.Good ⟨s, receiver, []⟩ transferId path content := hreceiving
    obtain ⟨d, hdeliver, hfile, -, -⟩ := hgood.deliver (by omega) hsize arrivals
      (fun chunk hchunk => by
        obtain ⟨i, hi, rfl⟩ := List.mem_map.mp ((harrivals chunk).mp hchunk)
        exact ⟨i, ((hmem i).mp hi).1, rfl⟩)
      (fun i hi hnot => (harrivals _).mpr (List.mem_map_of_mem ((hmem i).mpr ⟨hi, hnot⟩))) hnow
    refine ⟨d, hdeliver, ?_⟩
    rw [Folder.readFile, hfile]

/-- A receiver with one transfer in its database and an empty folder. -/
def sampleStore (path : Path) (hash : Bytes) : Store Bytes where
  folder := Folder.empty []
  db := { Database.empty with
    transfers := [⟨1, ascii "p", .download, hash, .active, 1, 1, path, []⟩] }

theorem resumable_sampleStore (content : Bytes) :
    Resumable (sampleStore (ascii "f") content) 1 (ascii "f") content fun _ => false where
  receives := ⟨by decide +kernel, fun _ _ => nofun, fun _ _ _ => nofun, nofun, nofun⟩
  marks := by rw [List.filter_false]; rfl
  agrees := by rw [List.filter_false]; exact Chunks.agrees_nil

/-- The content of a file of three chunks, the last of which has one byte. -/
@[irreducible] def threeChunks : Bytes :=
  List.replicate logicalChunkSize 1 ++ (List.replicate logicalChunkSize 2 ++ [3])

-- about any width, so that no proof computes with a list of this length
theorem length_twoPieces (width : Nat) :
    (List.replicate width (1 : UInt8) ++ (List.replicate width 2 ++ [3])).length =
      2 * width + 1 := by
  simp only [List.length_append, List.length_replicate, List.length_singleton]
  omega

theorem length_threeChunks : threeChunks.length = 2 * logicalChunkSize + 1 := by
  rw [threeChunks]
  exact length_twoPieces logicalChunkSize

theorem chunkCount_threeChunks : chunkCount threeChunks.length = 3 := by
  rw [length_threeChunks]
  decide

/-- A folder in which the chunk in the middle has been written to the part file of `f`. -/
def resumedFolder : Folder :=
  .plain (OrdMap.empty.insert (Folder.partPath (ascii "f")) (.file (Chunks.overwrite 0 []
    (1 * logicalChunkSize) (Chunks.piece logicalChunkSize threeChunks 1)))) (by decide +kernel) []

/-- The store of a receiver that has been interrupted after the chunk in the middle. -/
def resumedStore : Store Bytes where
  folder := resumedFolder
  db := { Database.empty with
    transfers := [⟨1, ascii "p", .download, threeChunks, .active, 1, 1, ascii "f", [1]⟩] }

theorem resumable_resumedStore :
    Resumable resumedStore 1 (ascii "f") threeChunks fun i => decide (i = 1) where
  receives := by
    have hparents : parents (ascii "f") = [] := by decide +kernel
    refine ⟨by decide +kernel, fun _ _ => nofun, fun d hd => ?_, nofun, nofun⟩
    rw [← mem_parents, hparents] at hd
    cases hd
  marks := by rw [chunkCount_threeChunks]; rfl
  agrees := by
    rw [chunkCount_threeChunks]
    have hlt : 1 < Chunks.count logicalChunkSize threeChunks.length := by
      rw [Chunks.lt_count_iff logicalChunkSize_pos, length_threeChunks]
      decide
    exact Chunks.agrees_nil.overwrite logicalChunkSize_pos hlt

theorem closed_singleFile (content : Bytes) :
    Tree.Closed (OrdMap.empty.insert (ascii "f") (.file content)) := by
  have hparents : parents (ascii "f") = [] := by decide +kernel
  intro p n hp d hd
  by_cases hf : p = ascii "f"
  · rw [hf, ← mem_parents, hparents] at hd
    cases hd
  · rw [OrdMap.find_insert_of_ne _ _ hf] at hp
    cases hp

/-- A folder with the file `f`. -/
def singleFile (content : Bytes) : Folder :=
  .plain (OrdMap.empty.insert (ascii "f") (.file content)) (closed_singleFile content) []

theorem readFile_singleFile (content : Bytes) :
    (singleFile content).readFile (ascii "f") = some content := rfl

/-- The request is for the other two chunks, and these are sent; they arrive in the other order, the
last one twice, with the marks written in between. -/
theorem transfer_delivers_resumed :
    ∃ receiver request session d, DownloadReceiver.create resumedStore.db 1 (ascii "f")
        threeChunks.length threeChunks (chunkCount threeChunks.length) = .ok receiver ∧
      receiver.resumeRequest resumedStore.db = .ok request ∧
      (openUpload (ascii "f") 1 threeChunks).queueRequested (singleFile threeChunks) request =
        .ok session ∧
      (UploadSession.drain (singleFile threeChunks) [0, 0, 0] session).1 =
        .ok [chunkOf 1 threeChunks 0, chunkOf 1 threeChunks 2] ∧
      Delivery.deliver [.chunk (chunkOf 1 threeChunks 2), .persist ⟨5, by decide⟩,
          .chunk (chunkOf 1 threeChunks 0), .chunk (chunkOf 1 threeChunks 2)] 9
        ⟨resumedStore, receiver, []⟩ = (.ok (), d) ∧
      d.store.folder.readFile (ascii "f") = some threeChunks := by
  have hmissing : missingChunks threeChunks (fun i => decide (i = 1)) = [0, 2] := by
    rw [missingChunks, chunkCount_threeChunks]
    decide
  obtain ⟨receiver, request, session, hcreate, hrequest, hqueue, hdrain, hdeliver⟩ :=
    transfer_delivers threeChunks (by rw [length_threeChunks]; decide)
      (by rw [length_threeChunks]; decide) (singleFile threeChunks) (ascii "f")
      (readFile_singleFile threeChunks) resumedStore 1 (ascii "f") (fun i => decide (i = 1))
      resumable_resumedStore
      fun first => ⟨3, by decide, .inl (by rw [chunkCount_threeChunks]; omega)⟩
  rw [hmissing] at hdrain hdeliver
  obtain ⟨session', hsent, -⟩ := hdrain [0, 0, 0]
  obtain ⟨d, hd, hfile⟩ := hdeliver [.chunk (chunkOf 1 threeChunks 2), .persist ⟨5, by decide⟩,
      .chunk (chunkOf 1 threeChunks 0), .chunk (chunkOf 1 threeChunks 2)] 9 (by decide)
      fun chunk => by
    simp only [List.mem_cons, Arrival.chunk.injEq, reduceCtorEq, false_or, List.map_cons,
      List.map_nil, List.not_mem_nil, or_false]
    rw [or_left_comm, or_self]
  exact ⟨receiver, request, session, d, hcreate, hrequest, hqueue, by rw [hsent]; rfl, hd, hfile⟩

/-- The request for a file of `2 ^ 32` chunks of which none is there is refused. -/
theorem resumeRequest_oversized {content : Bytes}
    (hlength : content.length = 2 ^ 32 * logicalChunkSize) :
    1 ≤ content.length ∧ content.length ≤ Database.int64Max ∧
      Resumable (sampleStore (ascii "f") content) 1 (ascii "f") content (fun _ => false) ∧
      ∃ receiver, DownloadReceiver.create (sampleStore (ascii "f") content).db 1 (ascii "f")
          content.length (blake3 content) (chunkCount content.length) = .ok receiver ∧
        receiver.resumeRequest (sampleStore (ascii "f") content).db =
          .error (.invalidArgument "missing range is too large") := by
  have hpos : 1 ≤ content.length := by
    rw [hlength]
    decide
  have hcount : chunkCount content.length = 2 ^ 32 := by
    rw [hlength]
    decide
  have hcompleted : (sampleStore (ascii "f") content).db.completedTransferChunks 1 = [] := rfl
  refine ⟨hpos, by rw [hlength]; decide, resumable_sampleStore content, ?_⟩
  obtain ⟨receiver, hcreate, hreceiving⟩ := (resumable_sampleStore content).create hpos
  refine ⟨receiver, hcreate, ?_⟩
  rw [DownloadReceiver.resumeRequest, hreceiving.chunkCount_eq, hreceiving.transferId_eq, hcount,
    hcompleted]
  rfl

/-- A file of a pebibyte cannot be requested by a receiver that has none of it. -/
theorem pebibyte_refused :
    ∃ content : Bytes, content = List.replicate (2 ^ 32 * logicalChunkSize) 0 ∧
      1 ≤ content.length ∧ content.length ≤ Database.int64Max ∧
      Resumable (sampleStore (ascii "f") content) 1 (ascii "f") content (fun _ => false) ∧
      ∃ receiver, DownloadReceiver.create (sampleStore (ascii "f") content).db 1 (ascii "f")
          content.length (blake3 content) (chunkCount content.length) = .ok receiver ∧
        receiver.resumeRequest (sampleStore (ascii "f") content).db =
          .error (.invalidArgument "missing range is too large") :=
  ⟨_, rfl, resumeRequest_oversized List.length_replicate⟩

end VeritasSync
