import VeritasSync.Common.Wire
import VeritasSync.Sync.Delivery
import VeritasSync.Transport.SendScheduler

/-!
# The upload and its scheduler

`UploadSession` does not hand the frames it makes to the transport.  It puts them into a
`SendScheduler` of its own, which has four queues and a budget, and takes them out again.  A range
is advanced before its frame has passed the budget.

Here the session is modelled with its scheduler.  The sessions of the nodes, in
`VeritasSync.Sync.Transfer`, have none: between two calls it is empty, and
`nextForTransport_plain` shows that nothing is missing there.

## What is here

* `ScheduledUpload` — the session, with its scheduler and the numbers of its frames.
* `ScheduledUpload.Ready.nextForTransport_plain` — what one call does, and that the session of the
  nodes does the same.
* `upload_conserved` — what has been sent and what is still to be sent are what was requested.

A scheduler between a session and its transport could reorder frames, drop them, or keep some back.
This one does none of it, for a reason that is visible in one call: it is empty when the call
begins, gets one frame, and gives it back.  The budget could refuse a frame only if it were smaller
than one frame, and the sessions of the nodes are given budgets that are larger.
-/

set_option autoImplicit false

namespace VeritasSync

/-! ## The session -/

variable {H : Type} [ContentHash H]

/-- The wire of a frame that `EncodeChunkFrame` makes: the chunk and the number of the frame. -/
structure ChunkFrame (H : Type) where
  chunk : Chunk H
  requestId : UInt64
  deriving DecidableEq

/-- The size of the wire. -/
def ChunkFrame.size {H : Type} (frame : ChunkFrame H) : Nat :=
  Wire.frameHeaderSize + (16 + 32 + 8 + 4 + 32 + frame.chunk.bytes.length)

/-- The size of the largest frame. -/
def maxChunkFrame : Nat := Wire.frameHeaderSize + (16 + 32 + 8 + 4 + 32 + logicalChunkSize)

/-- `sync::UploadSession`, with its scheduler. -/
structure ScheduledUpload (H : Type) where
  source : ChunkSource H
  scheduler : Transport.SendScheduler (ChunkFrame H)
  requestedRanges : List ChunkRange
  nextRequestId : UInt64

namespace ScheduledUpload

/-- The constructor, which refuses limits that make no sense. -/
def create {H : Type} (source : ChunkSource H) (maxPendingBytes resumeBelowBytes : Nat) :
    Except Error (ScheduledUpload H) := do
  let scheduler ← Transport.SendScheduler.create maxPendingBytes resumeBelowBytes
  pure ⟨source, scheduler, [], 1⟩

/-- `UploadSession::QueueRequested`: the request is checked before its ranges are queued. -/
def queueRequested (session : ScheduledUpload H) (folder : Folder) (request : FileRequest H) :
    Except Error (ScheduledUpload H) := do
  session.source.validateRequest folder request
  pure { session with requestedRanges := session.requestedRanges ++ request.missingRanges }

/-- `EncodeChunkFrame`.  A chunk that is too long cannot be encoded. -/
def encodeChunkFrame {H : Type} (chunk : Chunk H) (requestId : UInt64) :
    Except Error (ChunkFrame H) :=
  if chunk.bytes.length > logicalChunkSize then
    .error (.invalidArgument "chunk exceeds logical chunk size")
  else .ok ⟨chunk, requestId⟩

/-- The rest of `NextForTransport`, once the chunk has been read and the range advanced. -/
def schedule {H : Type} (session : ScheduledUpload H) (chunk : Chunk H) (bufferedBytes : Nat) :
    Except Error (Option (Transport.PendingSend (ChunkFrame H))) × ScheduledUpload H :=
  match encodeChunkFrame chunk session.nextRequestId with
  | .error e => (.error e, { session with nextRequestId := session.nextRequestId + 1 })
  | .ok wire =>
    match session.scheduler.enqueue ChunkFrame.size ⟨.bulk, .bulk, wire⟩ with
    | .error e => (.error e, { session with nextRequestId := session.nextRequestId + 1 })
    | .ok scheduler =>
      match scheduler.next ChunkFrame.size bufferedBytes with
      | (pending, scheduler) =>
        (.ok pending,
          { session with scheduler := scheduler, nextRequestId := session.nextRequestId + 1 })

/-- `UploadSession::NextForTransport`, with the session as it leaves it. -/
def nextForTransport (session : ScheduledUpload H) (folder : Folder) (bufferedBytes : Nat) :
    Except Error (Option (Transport.PendingSend (ChunkFrame H))) × ScheduledUpload H :=
  match session.scheduler.next ChunkFrame.size bufferedBytes with
  | (some pending, scheduler) => (.ok (some pending), { session with scheduler := scheduler })
  | (none, scheduler) =>
    match session.requestedRanges with
    | [] => (.ok none, { session with scheduler := scheduler })
    | range :: _ =>
      if !scheduler.canResume bufferedBytes then
        (.ok none, { session with scheduler := scheduler })
      else
        match session.source.readChunk folder range.firstChunk with
        | (.error e, source) =>
          (.error e, { session with source := source, scheduler := scheduler })
        | (.ok chunk, source) =>
          schedule
            { session with
              source := source
              scheduler := scheduler
              requestedRanges := UploadSession.advanceRanges session.requestedRanges }
            chunk bufferedBytes

/-- `UploadSession::HasPending`: a range or a frame is still to be sent. -/
def hasPending {H : Type} (session : ScheduledUpload H) : Bool :=
  session.requestedRanges ≠ [] ∨ session.scheduler.pendingBytes ≠ 0

/-- The session without its scheduler. -/
def plain {H : Type} (session : ScheduledUpload H) : UploadSession H :=
  ⟨session.source, session.requestedRanges⟩

/-! ### One call

Four things can happen: there is nothing to send, the transport has too much buffered, a chunk
cannot be read, or a frame is sent.  Only in the last one is anything about the session different
afterwards. -/

/-- Between two calls the scheduler is empty, and there is room for any frame. -/
structure Ready {H : Type} (session : ScheduledUpload H) : Prop where
  idle : session.scheduler.Idle
  fits : maxChunkFrame ≤ session.scheduler.maxPendingBytes

variable {session : ScheduledUpload H} {folder : Folder} {bufferedBytes : Nat}

omit [ContentHash H] in
/-- A chunk that has been read goes to the transport. -/
theorem Ready.schedule (h : session.Ready) {chunk : Chunk H}
    (hlength : chunk.bytes.length ≤ logicalChunkSize)
    (hresume : session.scheduler.canResume bufferedBytes = true) :
    session.schedule chunk bufferedBytes =
      (.ok (some ⟨.bulk, .bulk, ⟨chunk, session.nextRequestId⟩⟩),
        { session with nextRequestId := session.nextRequestId + 1 }) := by
  have hencode : encodeChunkFrame chunk session.nextRequestId =
      .ok ⟨chunk, session.nextRequestId⟩ := if_neg (not_lt.mpr hlength)
  have hfits := h.fits
  simp only [maxChunkFrame] at hfits
  obtain ⟨scheduler, henqueue, hnext⟩ : ∃ s',
      session.scheduler.enqueue ChunkFrame.size
          ⟨.bulk, .bulk, ⟨chunk, session.nextRequestId⟩⟩ = .ok s' ∧
        s'.next ChunkFrame.size bufferedBytes =
          (some ⟨.bulk, .bulk, ⟨chunk, session.nextRequestId⟩⟩, session.scheduler) := by
    refine h.idle.enqueue_next hresume ?_ ?_
    · simp only [ChunkFrame.size, Wire.frameHeaderSize]
      omega
    · simp only [ChunkFrame.size]
      omega
  simp only [ScheduledUpload.schedule, hencode, henqueue, hnext]

omit [ContentHash H] in
theorem Ready.next_none (h : session.Ready) :
    session.scheduler.next ChunkFrame.size bufferedBytes = (none, session.scheduler) :=
  h.idle.next bufferedBytes

/-- Nothing is requested, or the transport has enough. -/
theorem Ready.next_idle (h : session.Ready)
    (hidle : session.requestedRanges = [] ∨
      session.scheduler.resumeBelowBytes ≤ bufferedBytes) :
    session.nextForTransport folder bufferedBytes = (.ok none, session) := by
  rw [nextForTransport, h.next_none]
  dsimp only
  split
  · rfl
  · rename_i range ranges hranges
    have hfull : session.scheduler.resumeBelowBytes ≤ bufferedBytes :=
      hidle.resolve_left (by rw [hranges]; exact List.cons_ne_nil _ _)
    have hstop : session.scheduler.canResume bufferedBytes = false :=
      decide_eq_false (not_lt.mpr hfull)
    rw [hstop, Bool.not_false, if_pos rfl]

/-- A chunk is read. -/
theorem Ready.next_read (h : session.Ready) {range : ChunkRange} {ranges : List ChunkRange}
    (hranges : session.requestedRanges = range :: ranges)
    (hresume : bufferedBytes < session.scheduler.resumeBelowBytes) {chunk : Chunk H}
    {source : ChunkSource H}
    (hread : session.source.readChunk folder range.firstChunk = (.ok chunk, source))
    (hlength : chunk.bytes.length ≤ logicalChunkSize) :
    session.nextForTransport folder bufferedBytes =
      (.ok (some ⟨.bulk, .bulk, ⟨chunk, session.nextRequestId⟩⟩),
        { session with
          source := source
          requestedRanges := UploadSession.advanceRanges session.requestedRanges
          nextRequestId := session.nextRequestId + 1 }) := by
  have hgo : session.scheduler.canResume bufferedBytes = true := decide_eq_true hresume
  simp only [nextForTransport, h.next_none, hranges, hgo, Bool.not_true, Bool.false_eq_true,
    if_false, hread]
  have hready : Ready
      { session with
        source := source
        requestedRanges := UploadSession.advanceRanges (range :: ranges) } := ⟨h.idle, h.fits⟩
  exact hready.schedule hlength hgo

/-- A chunk cannot be read. -/
theorem Ready.next_error (h : session.Ready) {range : ChunkRange} {ranges : List ChunkRange}
    (hranges : session.requestedRanges = range :: ranges)
    (hresume : bufferedBytes < session.scheduler.resumeBelowBytes) {e : Error}
    {source : ChunkSource H}
    (hread : session.source.readChunk folder range.firstChunk = (.error e, source)) :
    session.nextForTransport folder bufferedBytes =
      (.error e, { session with source := source }) := by
  have hgo : session.scheduler.canResume bufferedBytes = true := decide_eq_true hresume
  simp only [nextForTransport, h.next_none, hranges, hgo, Bool.not_true, Bool.false_eq_true,
    if_false, hread]

theorem length_readChunk {source source' : ChunkSource H} {index : Nat} {chunk : Chunk H}
    (h : source.readChunk folder index = (.ok chunk, source')) :
    chunk.bytes.length ≤ logicalChunkSize := by
  rw [ChunkSource.readChunk] at h
  split at h
  · cases h
  · dsimp only at h
    split at h
    · cases h
    · split at h
      · cases h
      · rename_i hlength
        cases h
        rw [not_not] at hlength
        show List.length (List.take _ _) ≤ _
        rw [hlength]
        exact min_le_left _ _

/-- **The scheduler may be left out**: under the limits of the nodes, a call does to the source and
the ranges what it does without a scheduler, and sends the same chunk. -/
theorem Ready.nextForTransport_plain (h : session.Ready)
    (hlimit : session.scheduler.resumeBelowBytes = UploadSession.resumeBelowBytes) :
    (session.nextForTransport folder bufferedBytes).2.plain =
        (session.plain.nextForTransport folder bufferedBytes).2 ∧
      (session.nextForTransport folder bufferedBytes).1.map
          (Option.map fun pending => pending.wire.chunk) =
        (session.plain.nextForTransport folder bufferedBytes).1 ∧
      (session.nextForTransport folder bufferedBytes).2.Ready := by
  cases hranges : session.requestedRanges with
  | nil =>
    rw [h.next_idle (.inl hranges), UploadSession.nextForTransport]
    simp only [plain, hranges]
    exact ⟨trivial, rfl, h⟩
  | cons range ranges =>
    by_cases hfull : UploadSession.resumeBelowBytes ≤ bufferedBytes
    · rw [h.next_idle (.inr (hlimit ▸ hfull)), UploadSession.nextForTransport]
      simp only [plain, hranges, hfull, if_true]
      exact ⟨trivial, rfl, h⟩
    · have hresume : bufferedBytes < session.scheduler.resumeBelowBytes := by
        rw [hlimit]
        exact not_le.mp hfull
      rcases hread : session.source.readChunk folder range.firstChunk with ⟨e | chunk, source⟩
      · rw [h.next_error hranges hresume hread, UploadSession.nextForTransport]
        simp only [plain, hranges, hfull, if_false, hread]
        exact ⟨trivial, rfl, h.idle, h.fits⟩
      · rw [h.next_read hranges hresume hread (length_readChunk hread),
          UploadSession.nextForTransport]
        simp only [plain, hranges, hfull, if_false, hread]
        exact ⟨trivial, rfl, h.idle, h.fits⟩

/-! ### Many calls -/

/-- Calls of `NextForTransport`, each with the folder as it is then and the buffered amount, and
what they return. -/
def calls (session : ScheduledUpload H) : List (Folder × Nat) →
    List (Except Error (Option (Transport.PendingSend (ChunkFrame H)))) × ScheduledUpload H
  | [] => ([], session)
  | call :: rest =>
    let result := session.nextForTransport call.1 call.2
    let (results, session) := calls result.2 rest
    (result.1 :: results, session)

theorem calls_snd_cons {H : Type} [ContentHash H] (session : ScheduledUpload H) (folder : Folder)
    (bufferedBytes : Nat) (rest : List (Folder × Nat)) :
    (session.calls ((folder, bufferedBytes) :: rest)).2 =
      ((session.nextForTransport folder bufferedBytes).2.calls rest).2 := rfl

/-- The frames among what the calls have returned. -/
def framesOf {H : Type}
    (results : List (Except Error (Option (Transport.PendingSend (ChunkFrame H))))) :
    List (Transport.PendingSend (ChunkFrame H)) :=
  results.filterMap fun result =>
    match result with
    | .ok pending => pending
    | .error _ => none

/-- The frames for some chunks, numbered from `first` on. -/
def expected (transferId : TransferId) (content : Bytes) (first : UInt64) :
    List Nat → List (Transport.PendingSend (ChunkFrame H))
  | [] => []
  | index :: rest =>
    ⟨.bulk, .bulk, ⟨chunkOf transferId content index, first⟩⟩ ::
      expected transferId content (first + 1) rest

/-- The session uploads `content`, and has the given chunks still to send. -/
structure Sending (session : ScheduledUpload H) (transferId : TransferId) (content : Bytes)
    (pending : List Nat) : Prop where
  ready : session.Ready
  transferId_eq : session.source.transferId = transferId
  fileHash_eq : session.source.fileHash = blake3 content
  stream : session.source.stream.getD content = content
  expand_eq : expand session.requestedRanges = pending
  range_pos : ∀ range ∈ session.requestedRanges, 0 < range.chunkCount
  lt_count : ∀ index ∈ pending, index < chunkCount content.length

variable {transferId : TransferId} {content : Bytes} {pending rest : List Nat} {first : Nat}

theorem Sending.sends (h : session.Sending transferId content pending)
    (hfile : folder.readFile session.source.sourcePath = some content) :
    session.plain.Sends folder transferId content pending :=
  ⟨h.transferId_eq, h.fileHash_eq, hfile, h.stream, h.expand_eq, h.range_pos, h.lt_count⟩

theorem Sending.requestedRanges_eq_nil_iff (h : session.Sending transferId content pending) :
    session.requestedRanges = [] ↔ pending = [] := by
  rw [← h.expand_eq]
  cases hranges : session.requestedRanges with
  | nil => exact ⟨fun _ => rfl, fun _ => rfl⟩
  | cons range ranges =>
    have hpos := h.range_pos range (hranges ▸ List.mem_cons_self)
    rw [UploadSession.expand_advanceRanges hpos]
    exact ⟨nofun, nofun⟩

theorem Sending.hasPending_iff (h : session.Sending transferId content pending) :
    session.hasPending = false ↔ pending = [] := by
  rw [hasPending, decide_eq_false_iff_not, h.ready.idle.pendingBytes]
  simp only [ne_eq, not_true_eq_false, or_false, not_not]
  exact h.requestedRanges_eq_nil_iff

/-- Below the threshold, a call sends the next chunk. -/
theorem Sending.next (h : session.Sending transferId content (first :: rest))
    (hfile : folder.readFile session.source.sourcePath = some content)
    (hresume : bufferedBytes < session.scheduler.resumeBelowBytes) :
    ∃ session', session.nextForTransport folder bufferedBytes =
        (.ok (some ⟨.bulk, .bulk, ⟨chunkOf transferId content first, session.nextRequestId⟩⟩),
          session') ∧
      session'.Sending transferId content rest ∧
      session'.nextRequestId = session.nextRequestId + 1 ∧
      session'.source.sourcePath = session.source.sourcePath ∧
      session'.scheduler = session.scheduler := by
  cases hranges : session.requestedRanges with
  | nil => exact absurd (h.requestedRanges_eq_nil_iff.mp hranges) nofun
  | cons range ranges =>
    have hpos : 0 < range.chunkCount := h.range_pos range (hranges ▸ List.mem_cons_self)
    have hexpand := h.expand_eq
    rw [hranges, UploadSession.expand_advanceRanges hpos] at hexpand
    obtain ⟨hfirst, hrest⟩ := List.cons.inj hexpand
    have hread := (h.sends hfile).readChunk (h.lt_count first List.mem_cons_self)
    rw [← hfirst] at hread
    rw [h.ready.next_read hranges hresume hread (length_readChunk hread), hfirst, hranges]
    refine ⟨_, rfl, ⟨⟨h.ready.idle, h.ready.fits⟩, h.transferId_eq, h.fileHash_eq, rfl, hrest, ?_,
      fun index hindex => h.lt_count index (List.mem_cons_of_mem _ hindex)⟩, rfl, rfl, rfl⟩
    exact UploadSession.advanceRanges_pos (hranges ▸ h.range_pos)

/-- A call that sends nothing. -/
theorem Sending.next_idle (h : session.Sending transferId content pending)
    (hidle : pending = [] ∨ session.scheduler.resumeBelowBytes ≤ bufferedBytes) :
    session.nextForTransport folder bufferedBytes = (.ok none, session) :=
  h.ready.next_idle (hidle.imp_left h.requestedRanges_eq_nil_iff.mpr)

/-- **Calls conserve what was requested**: what they have sent, followed by what is still to be
sent. -/
theorem Sending.calls (h : session.Sending transferId content pending)
    (cs : List (Folder × Nat))
    (hfile : ∀ call ∈ cs, call.1.readFile session.source.sourcePath = some content) :
    ∃ left, framesOf (session.calls cs).1 ++
          expected transferId content (session.calls cs).2.nextRequestId left =
        expected transferId content session.nextRequestId pending ∧
      (session.calls cs).2.Sending transferId content left ∧
      ∀ p ∈ cs.zip (session.calls cs).1, (∃ next, p.2 = .ok next) ∧
        (session.scheduler.resumeBelowBytes ≤ p.1.2 → p.2 = .ok none) := by
  induction cs generalizing session pending with
  | nil => exact ⟨pending, rfl, h, nofun⟩
  | cons call cs ih =>
    have hhere := hfile call List.mem_cons_self
    have hthere := fun c hc => hfile c (List.mem_cons_of_mem call hc)
    rw [ScheduledUpload.calls]
    dsimp only
    by_cases hidle : pending = [] ∨ session.scheduler.resumeBelowBytes ≤ call.2
    · rw [h.next_idle hidle]
      obtain ⟨left, hframes, hsending, hall⟩ := ih h hthere
      refine ⟨left, hframes, hsending, fun p hp => ?_⟩
      rw [List.zip_cons_cons] at hp
      rcases List.mem_cons.mp hp with rfl | hp
      · exact ⟨⟨none, rfl⟩, fun _ => rfl⟩
      · exact hall p hp
    · rw [not_or, not_le] at hidle
      obtain ⟨first, rest, rfl⟩ := List.exists_cons_of_ne_nil hidle.1
      obtain ⟨session', hnext, hsending', hid, hpath, hscheduler⟩ := h.next hhere hidle.2
      rw [hnext]
      obtain ⟨left, hframes, hsending, hall⟩ := ih hsending' (hpath ▸ hthere)
      refine ⟨left, ?_, hsending, fun p hp => ?_⟩
      · rw [hid] at hframes
        exact congrArg (_ :: ·) hframes
      · rw [List.zip_cons_cons] at hp
        rcases List.mem_cons.mp hp with rfl | hp
        · exact ⟨⟨_, rfl⟩, fun hfull => absurd hfull (not_le.mpr hidle.2)⟩
        · exact hscheduler ▸ hall p hp

end ScheduledUpload

open ScheduledUpload

/-- **An upload loses nothing, repeats nothing and reorders nothing.**  After any calls of
`NextForTransport`, each at some buffered amount and with the source file as it was when the request
came, the frames that have been sent are a prefix of those for the requested chunks in order; every
call returns, with one frame at most and with none at or above the threshold; and nothing is pending
exactly when all have been sent. -/
theorem upload_conserved (sourcePath : Path) (content : Bytes) (request : FileRequest H)
    (maxPendingBytes resumeBelowBytes : Nat) (folder : Folder) (cs : List (Folder × Nat))
    (hfits : maxChunkFrame ≤ maxPendingBytes)
    (hranges : ∀ range ∈ request.missingRanges, 0 < range.chunkCount ∧
      range.firstChunk + range.chunkCount ≤ chunkCount content.length)
    (hfile : ∀ call ∈ cs, call.1.readFile sourcePath = some content)
    {created session : ScheduledUpload H}
    (hcreate : ScheduledUpload.create ⟨sourcePath, request.transferId, (blake3 content : H), none⟩
      maxPendingBytes resumeBelowBytes = .ok created)
    (hqueue : created.queueRequested folder request = .ok session) :
    let frames := framesOf (session.calls cs).1
    let all := expected request.transferId content 1 (expand request.missingRanges)
    frames <+: all ∧
      (∀ p ∈ cs.zip (session.calls cs).1, (∃ next, p.2 = .ok next) ∧
        (resumeBelowBytes ≤ p.1.2 → p.2 = .ok none)) ∧
      ((session.calls cs).2.hasPending = false ↔ frames = all) := by
  intro frames all
  obtain ⟨scheduler, hscheduler, hcreated⟩ := ok_of_bind hcreate
  cases hcreated
  rw [Transport.SendScheduler.create] at hscheduler
  split at hscheduler
  · cases hscheduler
  cases hscheduler
  obtain ⟨-, -, hsession⟩ := ok_of_bind hqueue
  cases hsession
  have hsending : ScheduledUpload.Sending
      ⟨⟨sourcePath, request.transferId, (blake3 content : H), none⟩,
        ⟨fun _ => [], maxPendingBytes, resumeBelowBytes, 0⟩, [] ++ request.missingRanges, 1⟩
      request.transferId content (expand request.missingRanges) := by
    refine ⟨⟨⟨fun _ => rfl, rfl⟩, hfits⟩, rfl, rfl, rfl, rfl, fun range hr => (hranges range hr).1,
      fun index hindex => ?_⟩
    obtain ⟨range, hr, hmem⟩ := List.mem_flatMap.mp hindex
    have hinside := (hranges range hr).2
    rw [List.mem_range'_1] at hmem
    omega
  -- what is left after the calls is the rest of the expected frames
  obtain ⟨left, hsent, hleft, hall⟩ := hsending.calls cs hfile
  have hframes : frames ++ expected request.transferId content _ left = all := hsent
  refine ⟨⟨_, hframes⟩, hall, hleft.hasPending_iff.trans ⟨?_, fun heq => ?_⟩⟩
  · rintro rfl
    exact (List.append_nil _).symm.trans hframes
  · have hnil : expected request.transferId content _ left =
        ([] : List (Transport.PendingSend (ChunkFrame H))) :=
      List.append_cancel_left (hframes.trans (heq.symm.trans (List.append_nil _).symm))
    cases left with
    | nil => rfl
    | cons index left => cases hnil

/-! ### Two chunks of three

The first and the last chunk of a file of three chunks are asked for, and the transport takes a
frame, has too much buffered, and takes another. -/

section Outer

variable {content : Bytes}

/-- The session as the node opens it, under its limits. -/
def openedUpload (content : Bytes) : ScheduledUpload Bytes :=
  ⟨⟨ascii "f", 1, content, none⟩, ⟨fun _ => [], 16 * 1024 * 1024, 1024 * 1024, 0⟩, [], 1⟩

/-- The request. -/
def outerRequest (content : Bytes) : FileRequest Bytes := ⟨1, content, [⟨0, 1⟩, ⟨2, 1⟩]⟩

/-- The session with the request. -/
def outerUpload (content : Bytes) : ScheduledUpload Bytes :=
  { openedUpload content with requestedRanges := [⟨0, 1⟩, ⟨2, 1⟩] }

/-- The calls. -/
def outerCalls (content : Bytes) : List (Folder × Nat) :=
  [(singleFile content, 0), (singleFile content, 1024 * 1024),
    (singleFile content, 1024 * 1024 - 1)]

theorem create_openedUpload (content : Bytes) :
    ScheduledUpload.create ⟨ascii "f", (outerRequest content).transferId, blake3 content, none⟩
      (16 * 1024 * 1024) (1024 * 1024) = .ok (openedUpload content) := rfl

theorem queueRequested_outer (content : Bytes) :
    (openedUpload content).queueRequested (singleFile content) (outerRequest content) =
      .ok (outerUpload content) := by
  have hfile := readFile_singleFile content
  rw [ScheduledUpload.queueRequested, ChunkSource.validateRequest]
  simp [openedUpload, outerRequest, outerUpload, hfile, blake3, bind, Except.bind, pure,
    Except.pure]

theorem sending_outerUpload (hcount : chunkCount content.length = 3) :
    (outerUpload content).Sending 1 content [0, 2] where
  ready := ⟨⟨fun _ => rfl, rfl⟩, show maxChunkFrame ≤ 16 * 1024 * 1024 by decide⟩
  transferId_eq := rfl
  fileHash_eq := rfl
  stream := rfl
  expand_eq := rfl
  range_pos := show ∀ range ∈ ([⟨0, 1⟩, ⟨2, 1⟩] : List ChunkRange), 0 < range.chunkCount by decide
  lt_count := by rw [hcount]; decide

/-- The calls leave nothing to be sent. -/
theorem hasPending_outerUpload (hcount : chunkCount content.length = 3) :
    ((outerUpload content).calls (outerCalls content)).2.hasPending = false := by
  have hfile : (singleFile content).readFile (outerUpload content).source.sourcePath =
      some content := rfl
  have hlimit : (outerUpload content).scheduler.resumeBelowBytes = 1024 * 1024 := rfl
  have hlow : 0 < (outerUpload content).scheduler.resumeBelowBytes := by rw [hlimit]; decide
  obtain ⟨one, hfirst, hsending, -, hpath, hscheduler⟩ :=
    (sending_outerUpload hcount).next hfile hlow
  rw [← hscheduler] at hlimit
  have hroom : 1024 * 1024 - 1 < one.scheduler.resumeBelowBytes := by rw [hlimit]; decide
  have hidle : one.nextForTransport (singleFile content) (1024 * 1024) = (.ok none, one) :=
    hsending.next_idle (.inr hlimit.le)
  obtain ⟨two, hsecond, hdone, -⟩ := hsending.next (hpath ▸ hfile) hroom
  rw [outerCalls, calls_snd_cons, hfirst, calls_snd_cons, hidle, calls_snd_cons, hsecond]
  exact hdone.hasPending_iff.mpr rfl

end Outer

/-- All that was requested is sent, in order. -/
theorem upload_conserved_outer :
    framesOf ((outerUpload threeChunks).calls (outerCalls threeChunks)).1 =
      expected 1 threeChunks 1 (expand [⟨0, 1⟩, ⟨2, 1⟩]) := by
  have hranges : ∀ range ∈ (outerRequest threeChunks).missingRanges, 0 < range.chunkCount ∧
      range.firstChunk + range.chunkCount ≤ chunkCount threeChunks.length := by
    rw [chunkCount_threeChunks]
    decide
  have hfile : ∀ call ∈ outerCalls threeChunks,
      call.1.readFile (ascii "f") = some threeChunks := by
    simp only [outerCalls, List.mem_cons, List.not_mem_nil, or_false]
    rintro call (rfl | rfl | rfl) <;> exact readFile_singleFile threeChunks
  have hall := upload_conserved (ascii "f") threeChunks (outerRequest threeChunks)
    (16 * 1024 * 1024) (1024 * 1024) (singleFile threeChunks) (outerCalls threeChunks) (by decide)
    hranges hfile (create_openedUpload threeChunks) (queueRequested_outer threeChunks)
  exact hall.2.2.mp (hasPending_outerUpload chunkCount_threeChunks)

end VeritasSync
