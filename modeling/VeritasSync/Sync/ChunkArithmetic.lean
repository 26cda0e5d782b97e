import VeritasSync.Lib.Run
import VeritasSync.Sync.Transfer

/-!
# The arithmetic of chunks, in machine words

Sizes come from manifests and offsets from frames, so a peer chooses them among all 64-bit numbers.
The nodes of this development count in natural numbers; here are the formulas of the sources, with
`std::uint64_t` as `UInt64`.

The number of chunks is computed in three ways.  `DownloadReceiver` divides first.  `ChunkCount` of
the two nodes and `ChunkSource::ReadChunk` add first, and near the top of the range the sum wraps:
the count is then 0.

## What is here

* `Word.Agrees` — all counts are the true one, nothing wraps, and what a receiver accepts lies
  inside the file.
* `chunk_arithmetic` — for which sizes that is so.
* `Word.toNat_chunkCount`, `Word.DownloadReceiver.acceptChunk_inside` — where the nodes' natural
  numbers are the same.

How far do these formulas go?  Up to sizes that no file has, but the sizes are not those of files,
they are numbers in a message.  A receiver that believed in a count of zero for an enormous file
would be finished before it began.  The two counts that add before they divide differ from the true
one in the last 262143 sizes, and there the receiver's own count, which divides first, does not
agree with them and the constructor refuses.
-/

set_option autoImplicit false

namespace VeritasSync

namespace Word

/-! ## The three counts -/

/-- `protocol::kLogicalChunkSize`, as a machine word. -/
def chunkSize : UInt64 := 256 * 1024

/-- `ChunkCount` in `one_way_sync.cpp`, which adds before it divides. -/
def oneWayChunkCount (size : UInt64) : UInt64 :=
  if size = 0 then 0 else (size + chunkSize - 1) / chunkSize

/-- `ChunkCount` in `bidirectional_sync.cpp`, which adds before it divides. -/
def bidirectionalChunkCount (size : UInt64) : UInt64 :=
  if size = 0 then 0 else (size + chunkSize - 1) / chunkSize

/-- The count that the constructor of `DownloadReceiver` compares with its argument. -/
def receiverChunkCount (size : UInt64) : UInt64 :=
  size / chunkSize + if size % chunkSize ≠ 0 then 1 else 0

/-- `total_chunks` in `ChunkSource::ReadChunk`, which adds before it divides. -/
def totalChunks (size : UInt64) : UInt64 := (size + chunkSize - 1) / chunkSize

/-- A sum that is only there if it does not wrap. -/
def addExact (a b : UInt64) : Option UInt64 :=
  if a.toNat + b.toNat < 2 ^ 64 then some (a + b) else none

/-- The sum that `ChunkCount` and `ReadChunk` divide, if it does not wrap. -/
def countExact (size : UInt64) : Option UInt64 :=
  (addExact size chunkSize).map fun sum => (sum - 1) / chunkSize

theorem toNat_chunkSize : chunkSize.toNat = logicalChunkSize := by decide

/-- The true number of chunks. -/
theorem ceilDiv_eq (n : Nat) :
    n ⌈/⌉ logicalChunkSize = (n + logicalChunkSize - 1) / logicalChunkSize :=
  Nat.ceilDiv_eq_add_pred_div n logicalChunkSize

/-- The count that adds first is right up to where the sum does not wrap. -/
theorem toNat_totalChunks_iff (size : UInt64) :
    (totalChunks size).toNat = size.toNat ⌈/⌉ logicalChunkSize ↔
      size.toNat + (logicalChunkSize - 1) < 2 ^ 64 := by
  have hlt := size.toNat_lt
  rw [totalChunks, UInt64.toNat_div, UInt64.toNat_sub, UInt64.toNat_add, toNat_chunkSize,
    ceilDiv_eq, logicalChunkSize, show (1 : UInt64).toNat = 1 from rfl]
  omega

theorem oneWayChunkCount_eq (size : UInt64) : oneWayChunkCount size = totalChunks size := by
  rw [oneWayChunkCount]
  split
  · rename_i hzero
    rw [hzero]
    decide
  · rfl

theorem bidirectionalChunkCount_eq (size : UInt64) :
    bidirectionalChunkCount size = totalChunks size := oneWayChunkCount_eq size

/-- The count that divides first is always right. -/
theorem toNat_receiverChunkCount (size : UInt64) :
    (receiverChunkCount size).toNat = size.toNat ⌈/⌉ logicalChunkSize := by
  have hlt := size.toNat_lt
  have hmod : size % chunkSize = 0 ↔ size.toNat % logicalChunkSize = 0 := by
    rw [← UInt64.toNat_inj, UInt64.toNat_mod, toNat_chunkSize]
    rfl
  rw [receiverChunkCount, UInt64.toNat_add, UInt64.toNat_div, toNat_chunkSize, ceilDiv_eq]
  split
  · rename_i hne
    rw [ne_eq, hmod] at hne
    rw [show (1 : UInt64).toNat = 1 from rfl]
    rw [logicalChunkSize] at hne ⊢
    omega
  · rename_i hzero
    rw [ne_eq, hmod, not_not] at hzero
    rw [show (0 : UInt64).toNat = 0 from rfl]
    rw [logicalChunkSize] at hzero ⊢
    omega

/-- The sum wraps one size earlier than the count goes wrong: at that size the subtraction wraps
back. -/
theorem countExact_eq_some_iff (size : UInt64) :
    countExact size = some (totalChunks size) ↔ size.toNat + logicalChunkSize < 2 ^ 64 := by
  rw [countExact, addExact, toNat_chunkSize]
  split
  · rename_i hlt
    exact iff_of_true rfl hlt
  · rename_i hge
    exact iff_of_false (by simp) hge

/-! ## Offsets -/

theorem toNat_min_le (a b : UInt64) : (min a b).toNat ≤ b.toNat := by
  show (if a ≤ b then a else b).toNat ≤ b.toNat
  split
  · rename_i hle
    exact UInt64.le_iff_toNat_le.mp hle
  · exact le_rfl

/-- The offset of a chunk that a file has does not wrap, and the chunk ends within the file. -/
theorem offset_inside {size chunkIndex : UInt64}
    (h : chunkIndex.toNat < size.toNat ⌈/⌉ logicalChunkSize) :
    (chunkIndex * chunkSize).toNat = chunkIndex.toNat * logicalChunkSize ∧
      chunkIndex * chunkSize < size ∧
      (chunkIndex * chunkSize).toNat + (min chunkSize (size - chunkIndex * chunkSize)).toNat ≤
        size.toNat := by
  have hlt := size.toNat_lt
  have hinside : chunkIndex.toNat * logicalChunkSize < size.toNat := by
    rw [ceilDiv_eq] at h
    rw [logicalChunkSize] at h ⊢
    omega
  have hexact : (chunkIndex * chunkSize).toNat = chunkIndex.toNat * logicalChunkSize := by
    rw [UInt64.toNat_mul, toNat_chunkSize]
    exact Nat.mod_eq_of_lt (hinside.trans hlt)
  have hbelow : chunkIndex * chunkSize < size := by
    rw [UInt64.lt_iff_toNat_lt, hexact]
    exact hinside
  refine ⟨hexact, hbelow, ?_⟩
  have hrest := UInt64.toNat_sub_of_le size _ (UInt64.le_of_lt hbelow)
  have hmin := toNat_min_le chunkSize (size - chunkIndex * chunkSize)
  omega

/-! ## The receiver

A chunk is written at an offset and with a length that the frame gives.  Both are compared with what
index and size imply before anything is written, in arithmetic that could wrap and does not. -/

/-- `sync::DownloadReceiver`, with its words. -/
structure DownloadReceiver where
  relativePath : Path
  expectedSize : UInt64
  chunkCount : UInt64
  accepted : List Bool
  receivedBytes : UInt64
  cancelled : Bool
  deriving DecidableEq

namespace DownloadReceiver

/-- The body of the constructor's loop over the durable chunks. -/
def resume (receiver : DownloadReceiver) (index : UInt64) : Except Error DownloadReceiver :=
  if index ≥ receiver.chunkCount then
    .error (.runtimeError "durable chunk index is out of range")
  else
    .ok { receiver with
      accepted := receiver.accepted.set index.toNat true
      receivedBytes := receiver.receivedBytes +
        min chunkSize (receiver.expectedSize - index * chunkSize) }

/-- The constructor; `completed` is what `CompletedTransferChunks` returns. -/
def create (relativePath : Path) (expectedSize chunkCount : UInt64) (completed : List UInt64) :
    Except Error DownloadReceiver :=
  if relativePath = [] ∨ chunkCount = 0 then
    .error (.invalidArgument "download metadata is invalid")
  else if receiverChunkCount expectedSize ≠ chunkCount then
    .error (.invalidArgument "download chunk count does not match size")
  else
    completed.foldlM resume
      ⟨relativePath, expectedSize, chunkCount, List.replicate chunkCount.toNat false, 0, false⟩

variable {H : Type} [ContentHash H]

/-- `expected_length` in `AcceptChunk`: a whole chunk, or what is left of the file. -/
def expectedLength (receiver : DownloadReceiver) (expectedOffset : UInt64) : UInt64 :=
  if expectedOffset < receiver.expectedSize then
    min chunkSize (receiver.expectedSize - expectedOffset)
  else 0

/-- `DownloadReceiver::AcceptChunk`; `written` is how the write and the mark in the database end. -/
def acceptChunk (receiver : DownloadReceiver) (chunkIndex offset : UInt64) (bytes : Bytes)
    (chunkHash : H) (written : Except Error Unit) : Except Error (Bool × DownloadReceiver) :=
  if receiver.cancelled then .error (.logicError "download is cancelled")
  else if chunkIndex ≥ receiver.chunkCount ∨ offset ≠ chunkIndex * chunkSize ∨
      bytes.length ≠ (receiver.expectedLength (chunkIndex * chunkSize)).toNat ∨
      blake3 bytes ≠ chunkHash then
    .error (.invalidArgument "download chunk is invalid")
  else if receiver.accepted[chunkIndex.toNat]? = some true then .ok (false, receiver)
  else
    written.map fun _ =>
      (true, { receiver with
        accepted := receiver.accepted.set chunkIndex.toNat true
        receivedBytes := receiver.receivedBytes + UInt64.ofNat bytes.length })

/-- `DownloadReceiver::Cancel`, once the database has the new state. -/
def cancel (receiver : DownloadReceiver) : DownloadReceiver := { receiver with cancelled := true }

/-- The count is the one of the size. -/
def Sized (receiver : DownloadReceiver) : Prop :=
  receiver.chunkCount = receiverChunkCount receiver.expectedSize

theorem resume_eq_ok {receiver receiver' : DownloadReceiver} {index : UInt64}
    (h : receiver.resume index = .ok receiver') :
    receiver'.expectedSize = receiver.expectedSize ∧
      receiver'.chunkCount = receiver.chunkCount := by
  rw [resume] at h
  split at h
  · cases h
  · cases h
    exact ⟨rfl, rfl⟩

theorem resumeAll_eq_ok {completed : List UInt64} {receiver receiver' : DownloadReceiver}
    (h : completed.foldlM resume receiver = .ok receiver') :
    receiver'.expectedSize = receiver.expectedSize ∧
      receiver'.chunkCount = receiver.chunkCount := by
  induction completed generalizing receiver with
  | nil =>
    cases h
    exact ⟨rfl, rfl⟩
  | cons index rest ih =>
    rw [List.foldlM_cons] at h
    obtain ⟨next, hnext, hrest⟩ := ok_of_bind h
    obtain ⟨hsize, hcount⟩ := resume_eq_ok hnext
    obtain ⟨hsize', hcount'⟩ := ih hrest
    exact ⟨hsize'.trans hsize, hcount'.trans hcount⟩

/-- The constructor checks the count. -/
theorem create_eq_ok {relativePath : Path} {expectedSize chunkCount : UInt64}
    {completed : List UInt64} {receiver : DownloadReceiver}
    (h : create relativePath expectedSize chunkCount completed = .ok receiver) :
    receiver.expectedSize = expectedSize ∧ receiver.Sized := by
  rw [create] at h
  split at h
  · cases h
  split at h
  · cases h
  · rename_i hcount
    obtain ⟨hsize, hcount'⟩ := resumeAll_eq_ok h
    exact ⟨hsize, by rw [Sized, hcount', hsize, not_not.mp hcount]⟩

/-- **What is accepted lies inside the file**, and nothing wraps on the way.  The frame is
arbitrary; all bounds come from the checks. -/
theorem acceptChunk_inside {receiver receiver' : DownloadReceiver} {chunkIndex offset : UInt64}
    {bytes : Bytes} {chunkHash : H} {written : Except Error Unit} {fresh : Bool}
    (hsized : receiver.Sized)
    (h : receiver.acceptChunk chunkIndex offset bytes chunkHash written = .ok (fresh, receiver')) :
    offset.toNat = chunkIndex.toNat * logicalChunkSize ∧
      offset.toNat + bytes.length ≤ receiver.expectedSize.toNat := by
  rw [acceptChunk] at h
  split at h
  · cases h
  split at h
  · cases h
  rename_i hvalid
  push Not at hvalid
  obtain ⟨hindex, hoffset, hlength, -⟩ := hvalid
  have hcount : chunkIndex.toNat < receiver.expectedSize.toNat ⌈/⌉ logicalChunkSize := by
    rw [← toNat_receiverChunkCount, ← hsized]
    exact UInt64.lt_iff_toNat_lt.mp (UInt64.not_le.mp hindex)
  obtain ⟨hexact, hbelow, hend⟩ := offset_inside hcount
  rw [hoffset, hlength, expectedLength, if_pos hbelow]
  exact ⟨hexact, hend⟩

theorem sized_acceptChunk {receiver receiver' : DownloadReceiver} {chunkIndex offset : UInt64}
    {bytes : Bytes} {chunkHash : H} {written : Except Error Unit} {fresh : Bool}
    (hsized : receiver.Sized)
    (h : receiver.acceptChunk chunkIndex offset bytes chunkHash written = .ok (fresh, receiver')) :
    receiver'.expectedSize = receiver.expectedSize ∧ receiver'.Sized := by
  rw [acceptChunk] at h
  split at h
  · cases h
  split at h
  · cases h
  split at h
  · cases h
    exact ⟨rfl, hsized⟩
  · obtain ⟨_, -, hreceiver⟩ := ok_of_map h
    cases hreceiver
    exact ⟨rfl, hsized⟩

/-- What is done to a receiver. -/
inductive Call (H : Type) where
  | acceptChunk (chunkIndex offset : UInt64) (bytes : Bytes) (chunkHash : H)
      (written : Except Error Unit)
  | cancel

/-- One call; an exception leaves the receiver as it was. -/
def step (receiver : DownloadReceiver) : Call H → DownloadReceiver
  | .acceptChunk chunkIndex offset bytes chunkHash written =>
    match receiver.acceptChunk chunkIndex offset bytes chunkHash written with
    | .ok (_, receiver') => receiver'
    | .error _ => receiver
  | .cancel => receiver.cancel

/-- The size and the count stay what the constructor has made them. -/
theorem sized_run {receiver : DownloadReceiver} (hsized : receiver.Sized) (calls : List (Call H)) :
    (Run.run step receiver calls).expectedSize = receiver.expectedSize ∧
      (Run.run step receiver calls).Sized := by
  refine Run.run_invariant_all
    (I := fun r : DownloadReceiver => r.expectedSize = receiver.expectedSize ∧ r.Sized)
    (fun r call hr => ?_) calls ⟨rfl, hsized⟩
  cases call with
  | cancel => exact hr
  | acceptChunk chunkIndex offset bytes chunkHash written =>
    rw [step]
    cases haccept : r.acceptChunk chunkIndex offset bytes chunkHash written with
    | error e => exact hr
    | ok result =>
      obtain ⟨fresh, r'⟩ := result
      obtain ⟨hsize, hsized'⟩ := sized_acceptChunk hr.2 haccept
      exact ⟨hsize.trans hr.1, hsized'⟩

end DownloadReceiver

/-! ## Where the counts agree -/

/-- For a file of this size every count is the true one, by a computation in which nothing wraps,
and whatever a receiver for it accepts lies inside the file. -/
structure Agrees (H : Type) [ContentHash H] (size : UInt64) : Prop where
  oneWay : (oneWayChunkCount size).toNat = size.toNat ⌈/⌉ logicalChunkSize
  bidirectional : (bidirectionalChunkCount size).toNat = size.toNat ⌈/⌉ logicalChunkSize
  receiver : (receiverChunkCount size).toNat = size.toNat ⌈/⌉ logicalChunkSize
  source : (totalChunks size).toNat = size.toNat ⌈/⌉ logicalChunkSize
  exact : countExact size = some (totalChunks size)
  inside : ∀ relativePath chunkCount completed created (calls : List (DownloadReceiver.Call H))
    chunkIndex offset bytes (chunkHash : H) written fresh receiver,
    DownloadReceiver.create relativePath size chunkCount completed = .ok created →
    (Run.run DownloadReceiver.step created calls).acceptChunk chunkIndex offset bytes chunkHash
      written = .ok (fresh, receiver) →
    offset.toNat = chunkIndex.toNat * logicalChunkSize ∧ offset.toNat + bytes.length ≤ size.toNat

end Word

/-- **The arithmetic of chunks is right for all sizes below 2^64 - 262144**, and at that size the
counts are still right although the sum wraps: the subtraction wraps back. -/
theorem chunk_arithmetic {H : Type} [ContentHash H] (size : UInt64) :
    (Word.Agrees H size ↔ size.toNat + logicalChunkSize < 2 ^ 64) ∧
      ((Word.oneWayChunkCount size).toNat = size.toNat ⌈/⌉ logicalChunkSize ↔
        size.toNat + (logicalChunkSize - 1) < 2 ^ 64) := by
  rw [Word.oneWayChunkCount_eq]
  refine ⟨⟨fun h => (Word.countExact_eq_some_iff size).mp h.exact, fun h => ?_⟩,
    Word.toNat_totalChunks_iff size⟩
  have hcount := (Word.toNat_totalChunks_iff size).mpr (by omega)
  refine ⟨?_, ?_, Word.toNat_receiverChunkCount size, hcount,
    (Word.countExact_eq_some_iff size).mpr h, ?_⟩
  · rw [Word.oneWayChunkCount_eq, hcount]
  · rw [Word.bidirectionalChunkCount_eq, hcount]
  · intro relativePath chunkCount completed created calls chunkIndex offset bytes chunkHash written
      fresh receiver hcreate haccept
    obtain ⟨hsize, hsized⟩ := Word.DownloadReceiver.create_eq_ok hcreate
    obtain ⟨hsame, hsized'⟩ := Word.DownloadReceiver.sized_run hsized calls
    have hinside := Word.DownloadReceiver.acceptChunk_inside hsized' haccept
    rw [hsame, hsize] at hinside
    exact hinside

/-- A file of the largest size: the nodes count no chunk in it. -/
theorem not_agrees_largest :
    Word.oneWayChunkCount (2 ^ 64 - 1) = 0 ∧ Word.bidirectionalChunkCount (2 ^ 64 - 1) = 0 ∧
      Word.totalChunks (2 ^ 64 - 1) = 0 ∧
      (2 ^ 64 - 1 : UInt64).toNat ⌈/⌉ logicalChunkSize = 2 ^ 46 ∧
      ∀ (H : Type) [ContentHash H], ¬ Word.Agrees H (2 ^ 64 - 1) := by
  have hzero : Word.oneWayChunkCount (2 ^ 64 - 1) = 0 := by decide +kernel
  have htrue : (2 ^ 64 - 1 : UInt64).toNat ⌈/⌉ logicalChunkSize = 2 ^ 46 := by
    rw [Word.ceilDiv_eq]
    decide +kernel
  refine ⟨hzero, by decide +kernel, by decide +kernel, htrue, fun H _ h => ?_⟩
  have hcount := h.oneWay
  rw [hzero, htrue] at hcount
  exact absurd hcount (by decide)

end VeritasSync
