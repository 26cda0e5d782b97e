import Mathlib
import VeritasSync.Common.Wire
import VeritasSync.Lib.Chunks
import VeritasSync.Lib.OrdMap
import VeritasSync.Lib.Run

/-!
# Frames over a DataChannel

A frame is too long for one message of a DataChannel, so `frame_fragments.cpp` cuts it into
fragments that carry the frame's number, its length and their own offset.  The channel is
unordered: fragments of many frames arrive interleaved, and a fragment may arrive twice.

`FragmentFrame` and `FrameReassembler::Accept` are modelled byte by byte, with the clock reading of
each call as an argument.

A bitmap over the fragments, a counter of the missing ones, and a buffer: these three have to be
kept together, and the counter is the one that decides.  A fragment that arrives twice must not be
counted twice, so the bitmap is looked at first.  With distinct numbers the frames do not disturb
each other, as long as nothing expires and there is room for all that is pending.

## What is here

* `accept_fragment` — what one call does with a fragment of a frame that is not complete yet, as
  long as nothing has expired and there is room.
* `Assembles` — the invariant that links the bitmap, the counter and the buffer of every pending
  frame to the fragments that have arrived.
* `reassembles` — every frame comes out once, at its last missing fragment, in whatever order the
  fragments arrive, and repeated fragments change nothing.
-/

set_option autoImplicit false

namespace VeritasSync

namespace Transport

/-! ## Fragments

The header of a fragment is read and written byte by byte.  A fragment of a frame that
`FragmentFrame` has cut passes every check of the reader. -/

/-- `kHeader`: a mark of four bytes, the number of the frame, its length and the offset. -/
def fragmentHeader : Nat := 20

/-- `kFragmentPayloadSize`: with the header, a DataChannel message of 16 KiB. -/
def fragmentPayloadSize : Nat := 16 * 1024 - 20

/-- The first four bytes of a fragment: `VF`, version 2. -/
def fragmentMagic : Bytes := [86, 70, 2, 0]

/-- One round of the loop of `FragmentFrame`. -/
def fragmentAt (id : UInt64) (wire : Bytes) (offset : Nat) : Bytes :=
  fragmentMagic ++ Codec.littleEndian 8 id.toNat ++ Codec.littleEndian 4 wire.length ++
    Codec.littleEndian 4 offset ++ (wire.drop offset).take fragmentPayloadSize

/-- The loop of `FragmentFrame`, from an offset on. -/
def fragmentLoop (id : UInt64) (wire : Bytes) (offset : Nat) : List Bytes :=
  if offset < wire.length then
    fragmentAt id wire offset :: fragmentLoop id wire (offset + fragmentPayloadSize)
  else []
termination_by wire.length - offset
decreasing_by
  have : 0 < fragmentPayloadSize := by decide
  omega

/-- `FragmentFrame`: the fragments of a frame, in the order of their offsets. -/
def fragmentFrame (id : UInt64) (wire : Bytes) : Except Error (List Bytes) :=
  if id = 0 ∨ wire = [] ∨ wire.length > Wire.maxFrameSize then
    .error (.invalidArgument "invalid fragment frame")
  else .ok (fragmentLoop id wire 0)

/-! ## `FrameReassembler`

`Accept` is one function in the source: it reads the header, drops what has expired, finds or opens
the pending frame, compares what the fragment says about it with what is known, copies, and returns
the frame if it is complete.  Its steps are definitions here, in this order. -/

/-- `FrameReassembler::Partial`.  The clock counts nanoseconds. -/
structure Partial where
  wire : Bytes
  received : List Bool
  count : Nat
  touched : Nat
  deriving DecidableEq, Repr

/-- The members of a `FrameReassembler`. -/
structure FrameReassembler where
  pending : OrdMap Nat Partial := OrdMap.empty
  bytes : Nat := 0
  deriving DecidableEq

/-- The 60 seconds after which a frame is given up. -/
def partialLifetime : Nat := 60 * 1000000000

/-- At most this many frames are pending. -/
def maxPending : Nat := 32

/-- At most this many bytes are pending. -/
def maxPendingBytes : Nat := 32 * 1024 * 1024

/-- The frame's number in a fragment. -/
def fragmentId (fragment : Bytes) : Nat := Codec.ofLittleEndian ((fragment.drop 4).take 8)

/-- The frame's length in a fragment. -/
def fragmentTotal (fragment : Bytes) : Nat := Codec.ofLittleEndian ((fragment.drop 12).take 4)

/-- The offset in a fragment. -/
def fragmentOffset (fragment : Bytes) : Nat := Codec.ofLittleEndian ((fragment.drop 16).take 4)

namespace FrameReassembler

/-- The loop of `Accept` that gives up the frames nothing has arrived for. -/
def expire (now : Nat) (s : FrameReassembler) : FrameReassembler :=
  s.pending.entries.foldl
    (fun s entry =>
      if entry.2.touched + partialLifetime < now then
        { pending := s.pending.erase entry.1, bytes := s.bytes - entry.2.wire.length }
      else s)
    s

/-- The entry of a frame, which is made if there is none and there is room. -/
def openPartial (id total now : Nat) : Exec FrameReassembler Error Partial := do
  let s ← Exec.state
  match s.pending.find id with
  | some found => pure found
  | none =>
    if s.pending.entries.length ≥ maxPending ∨ total > maxPendingBytes - s.bytes then
      Exec.raise (.lengthError "per-channel reassembly budget exceeded")
    else do
      let made : Partial :=
        { wire := List.replicate total 0
          received := List.replicate (Chunks.count fragmentPayloadSize total) false
          count := 0
          touched := now }
      Exec.update fun s =>
        { pending := s.pending.insert id made, bytes := s.bytes + total }
      pure made

/-- The payload goes to its place, unless it is there already. -/
def place (found : Partial) (offset : Nat) (payload : Bytes) : Except Error Partial :=
  let index := offset / fragmentPayloadSize
  if found.received[index]? = some true then
    if (found.wire.drop offset).take payload.length ≠ payload then
      .error (.invalidArgument "duplicate fragment changed bytes")
    else .ok found
  else
    .ok
      { found with
        wire := Chunks.overwrite 0 found.wire offset payload
        received := found.received.set index true
        count := found.count + 1 }

/-- The rest of `Accept`, once the frame has an entry. -/
def put (found : Partial) (id total offset now : Nat) (payload : Bytes) :
    Exec FrameReassembler Error (Option Bytes) :=
  if found.wire.length ≠ total then Exec.raise (.invalidArgument "fragment total changed")
  else do
    let placed ← Exec.check fun _ => place found offset payload
    let placed := { placed with touched := now }
    Exec.update fun s => { s with pending := s.pending.insert id placed }
    if placed.count ≠ placed.received.length then pure none
    else do
      Exec.update fun s => { pending := s.pending.erase id, bytes := s.bytes - total }
      pure (some placed.wire)

/-- `FrameReassembler::Accept`: a fragment is checked, what is too old is forgotten, and the frame
is returned with its last missing fragment. -/
def accept (fragment : Bytes) (now : Nat) : Exec FrameReassembler Error (Option Bytes) :=
  let id := fragmentId fragment
  let total := fragmentTotal fragment
  let offset := fragmentOffset fragment
  if fragment.length ≤ fragmentHeader ∨ fragment.length > fragmentHeader + fragmentPayloadSize ∨
      fragment.take 4 ≠ fragmentMagic then
    Exec.raise (.invalidArgument "invalid DataChannel fragment")
  else if id = 0 ∨ total = 0 ∨ total > Wire.maxFrameSize ∨ offset ≥ total ∨
      offset % fragmentPayloadSize ≠ 0 ∨
      fragment.length - fragmentHeader ≠ min fragmentPayloadSize (total - offset) then
    Exec.raise (.invalidArgument "invalid fragment range")
  else do
    Exec.update (expire now)
    let found ← openPartial id total now
    put found id total offset now (fragment.drop fragmentHeader)

end FrameReassembler

/-! ## Frames and their fragments -/

/-- A frame that `FragmentFrame` takes, with its number. -/
structure Outgoing where
  id : UInt64
  wire : Bytes
  id_ne : id ≠ 0
  wire_ne : wire ≠ []
  length_le : wire.length ≤ Wire.maxFrameSize
  deriving DecidableEq

namespace Outgoing

variable (f : Outgoing)

/-- The fragments of a frame. -/
def fragments : List Bytes := fragmentLoop f.id f.wire 0

/-- All fragments of the frame have arrived. -/
def Complete (arrived : List Bytes) : Prop := ∀ fragment ∈ f.fragments, fragment ∈ arrived

instance (arrived : List Bytes) : Decidable (f.Complete arrived) :=
  inferInstanceAs (Decidable (∀ fragment ∈ f.fragments, fragment ∈ arrived))

/-- The number of fragments. -/
def count : Nat := Chunks.count fragmentPayloadSize f.wire.length

/-- The `i`-th fragment. -/
def fragment (i : Nat) : Bytes := fragmentAt f.id f.wire (i * fragmentPayloadSize)

theorem fragmentFrame_eq : fragmentFrame f.id f.wire = .ok f.fragments := by
  rw [fragmentFrame, if_neg]
  · rfl
  · rw [not_or, not_or, Nat.not_lt]
    exact ⟨f.id_ne, f.wire_ne, f.length_le⟩

end Outgoing

theorem fragmentPayloadSize_pos : 0 < fragmentPayloadSize := by decide

theorem fragmentLoop_eq (id : UInt64) (wire : Bytes) (k i : Nat)
    (hk : Chunks.count fragmentPayloadSize wire.length = i + k) :
    fragmentLoop id wire (i * fragmentPayloadSize) =
      (List.range' i k).map fun j => fragmentAt id wire (j * fragmentPayloadSize) := by
  induction k generalizing i with
  | zero =>
    have hend : ¬ i * fragmentPayloadSize < wire.length := by
      rw [← Chunks.lt_count_iff fragmentPayloadSize_pos, hk]
      omega
    rw [fragmentLoop, if_neg hend]
    rfl
  | succ k ih =>
    have hin : i * fragmentPayloadSize < wire.length := by
      rw [← Chunks.lt_count_iff fragmentPayloadSize_pos, hk]
      omega
    rw [fragmentLoop, if_pos hin, ← Nat.succ_mul, ih (i + 1) (by omega), List.range'_succ,
      List.map_cons]

section Header

variable {id : UInt64} {wire : Bytes} {offset : Nat}

theorem length_fragmentAt :
    (fragmentAt id wire offset).length =
      fragmentHeader + min fragmentPayloadSize (wire.length - offset) := by
  simp only [fragmentAt, List.length_append, Codec.length_littleEndian, List.length_take,
    List.length_drop]
  rfl

theorem take_fragmentAt : (fragmentAt id wire offset).take 4 = fragmentMagic := by
  simp only [fragmentAt, List.append_assoc]
  exact List.take_left' rfl

theorem fragmentId_fragmentAt : fragmentId (fragmentAt id wire offset) = id.toNat := by
  have hdrop : (fragmentAt id wire offset).drop 4 = Codec.littleEndian 8 id.toNat ++
      (Codec.littleEndian 4 wire.length ++ (Codec.littleEndian 4 offset ++
        (wire.drop offset).take fragmentPayloadSize)) := by
    simp only [fragmentAt, List.append_assoc]
    exact List.drop_left' rfl
  rw [fragmentId, hdrop, List.take_left' (Codec.length_littleEndian _ _),
    Codec.ofLittleEndian_littleEndian id.toNat_lt]

theorem fragmentTotal_fragmentAt (h : wire.length < 2 ^ 32) :
    fragmentTotal (fragmentAt id wire offset) = wire.length := by
  have hdrop : (fragmentAt id wire offset).drop 12 = Codec.littleEndian 4 wire.length ++
      (Codec.littleEndian 4 offset ++ (wire.drop offset).take fragmentPayloadSize) := by
    rw [fragmentAt, List.append_assoc, List.append_assoc]
    exact List.drop_left' (by rw [List.length_append, Codec.length_littleEndian]; rfl)
  rw [fragmentTotal, hdrop, List.take_left' (Codec.length_littleEndian _ _),
    Codec.ofLittleEndian_littleEndian h]

theorem fragmentOffset_fragmentAt (h : offset < 2 ^ 32) :
    fragmentOffset (fragmentAt id wire offset) = offset := by
  have hdrop : (fragmentAt id wire offset).drop 16 = Codec.littleEndian 4 offset ++
      (wire.drop offset).take fragmentPayloadSize := by
    rw [fragmentAt, List.append_assoc]
    refine List.drop_left' ?_
    simp only [List.length_append, Codec.length_littleEndian]
    rfl
  rw [fragmentOffset, hdrop, List.take_left' (Codec.length_littleEndian _ _),
    Codec.ofLittleEndian_littleEndian h]

theorem drop_fragmentAt : (fragmentAt id wire offset).drop fragmentHeader =
    (wire.drop offset).take fragmentPayloadSize := by
  rw [fragmentAt]
  refine List.drop_left' ?_
  simp only [List.length_append, Codec.length_littleEndian]
  rfl

end Header

namespace Outgoing

variable {f g : Outgoing} {i j : Nat} {arrived : List Bytes}

theorem fragments_eq (f : Outgoing) : f.fragments = (List.range f.count).map f.fragment := by
  have h := fragmentLoop_eq f.id f.wire f.count 0 (Nat.zero_add _).symm
  rw [Nat.zero_mul] at h
  rw [fragments, h, List.range_eq_range']
  rfl

theorem mem_fragments {x : Bytes} : x ∈ f.fragments ↔ ∃ i < f.count, f.fragment i = x := by
  rw [fragments_eq, List.mem_map]
  simp only [List.mem_range]

theorem length_lt (f : Outgoing) : f.wire.length < 2 ^ 32 := by
  have := f.length_le
  simp only [Wire.maxFrameSize] at this
  omega

theorem lt_count : i < f.count ↔ i * fragmentPayloadSize < f.wire.length :=
  Chunks.lt_count_iff fragmentPayloadSize_pos

theorem count_pos (f : Outgoing) : 0 < f.count := by
  rw [lt_count, Nat.zero_mul]
  exact List.length_pos_of_ne_nil f.wire_ne

theorem fragmentId_fragment : fragmentId (f.fragment i) = f.id.toNat := fragmentId_fragmentAt

theorem fragmentTotal_fragment : fragmentTotal (f.fragment i) = f.wire.length :=
  fragmentTotal_fragmentAt f.length_lt

theorem fragmentOffset_fragment (hi : i < f.count) :
    fragmentOffset (f.fragment i) = i * fragmentPayloadSize :=
  fragmentOffset_fragmentAt (lt_trans (lt_count.mp hi) f.length_lt)

/-- A fragment belongs to one frame number. -/
theorem id_eq_of_fragment_eq (h : f.fragment i = g.fragment j) : f.id = g.id := by
  rw [← UInt64.toNat_inj, ← fragmentId_fragment (i := i), h, fragmentId_fragment]

/-- Different pieces make different fragments. -/
theorem fragment_inj (hi : i < f.count) (hj : j < f.count) (h : f.fragment i = f.fragment j) :
    i = j := by
  have hoffset := congrArg fragmentOffset h
  rw [fragmentOffset_fragment hi, fragmentOffset_fragment hj] at hoffset
  exact Nat.eq_of_mul_eq_mul_right fragmentPayloadSize_pos hoffset

theorem complete_iff : f.Complete arrived ↔ ∀ i < f.count, f.fragment i ∈ arrived := by
  constructor
  · intro h i hi
    exact h _ (mem_fragments.mpr ⟨i, hi, rfl⟩)
  · intro h x hx
    obtain ⟨i, hi, rfl⟩ := mem_fragments.mp hx
    exact h i hi

end Outgoing

namespace FrameReassembler

variable {f : Outgoing} {i now : Nat} {s : FrameReassembler}

/-- A fragment of a frame passes the checks of `Accept`. -/
theorem accept_fragment_eq (hi : i < f.count) :
    accept (f.fragment i) now s = (do
      let found ← openPartial f.id.toNat f.wire.length now
      put found f.id.toNat f.wire.length (i * fragmentPayloadSize) now
        (Chunks.piece fragmentPayloadSize f.wire i)) (expire now s) := by
  have hstart := Outgoing.lt_count.mp hi
  have hlength : (f.fragment i).length =
      fragmentHeader + min fragmentPayloadSize (f.wire.length - i * fragmentPayloadSize) :=
    length_fragmentAt
  have hpos := fragmentPayloadSize_pos
  have hid : f.id.toNat ≠ 0 := fun h => f.id_ne (UInt64.toNat_inj.mp h)
  have hmax := f.length_le
  rw [accept, Outgoing.fragmentId_fragment, Outgoing.fragmentTotal_fragment,
    Outgoing.fragmentOffset_fragment hi, if_neg, if_neg]
  · rw [Outgoing.fragment, drop_fragmentAt]
    rfl
  · rw [Nat.mul_mod_left, hlength]
    omega
  · have htake : (f.fragment i).take 4 = fragmentMagic := take_fragmentAt
    rw [htake, hlength]
    simp only [ne_eq, not_true_eq_false, or_false]
    omega

end FrameReassembler

/-! ## One pending frame

What has been marked in the bitmap has been copied into the buffer.  When nothing is missing the
buffer is the frame. -/

/-- The entry of a frame: its bitmap is the set of the fragments that have arrived, its counter the
size of that set, and its buffer holds their payloads. -/
structure Partial.Holds (f : Outgoing) (arrived : List Bytes) (found : Partial) : Prop where
  length : found.wire.length = f.wire.length
  received : found.received = (List.range f.count).map fun i => decide (f.fragment i ∈ arrived)
  count : found.count = found.received.count true
  agrees : Chunks.Agrees fragmentPayloadSize found.wire f.wire
    ((List.range f.count).filter fun i => decide (f.fragment i ∈ arrived))

namespace Partial.Holds

variable {f : Outgoing} {arrived arrived' : List Bytes} {found : Partial} {i : Nat}

theorem touch (h : found.Holds f arrived) (now : Nat) :
    ({ found with touched := now } : Partial).Holds f arrived :=
  ⟨h.length, h.received, h.count, h.agrees⟩

theorem congr (h : found.Holds f arrived)
    (hsame : ∀ i < f.count, (f.fragment i ∈ arrived' ↔ f.fragment i ∈ arrived)) :
    found.Holds f arrived' := by
  have hdecide : ∀ i ∈ List.range f.count,
      decide (f.fragment i ∈ arrived') = decide (f.fragment i ∈ arrived) :=
    fun i hi => decide_eq_decide.mpr (hsame i (List.mem_range.mp hi))
  constructor
  · exact h.length
  · rw [List.map_congr_left hdecide]
    exact h.received
  · exact h.count
  · rw [List.filter_congr hdecide]
    exact h.agrees

/-- The entry `Accept` makes for a frame of which nothing has arrived. -/
theorem made (hnone : ∀ i < f.count, f.fragment i ∉ arrived) (now : Nat) :
    ({ wire := List.replicate f.wire.length 0
       received := List.replicate (Chunks.count fragmentPayloadSize f.wire.length) false
       count := 0
       touched := now } : Partial).Holds f arrived := by
  constructor
  · exact List.length_replicate
  · refine (List.eq_replicate_iff.mpr ⟨?_, fun b hb => ?_⟩).symm
    · rw [List.length_map, List.length_range]
      rfl
    · obtain ⟨i, hi, rfl⟩ := List.mem_map.mp hb
      exact decide_eq_false (hnone i (List.mem_range.mp hi))
  · show 0 = (List.replicate _ false).count true
    rw [List.count_replicate]
    rfl
  · refine ⟨le_of_eq List.length_replicate, fun j _ hmem => ?_⟩
    rw [List.mem_filter, List.mem_range, decide_eq_true_eq] at hmem
    exact absurd hmem.2 (hnone _ hmem.1)

theorem getElem?_received (h : found.Holds f arrived) (hi : i < f.count) :
    found.received[i]? = some (decide (f.fragment i ∈ arrived)) := by
  rw [h.received, List.getElem?_map, List.getElem?_range hi, Option.map_some]

/-- The counter reaches the number of fragments with the last one. -/
theorem count_eq_length_iff (h : found.Holds f arrived) :
    found.count = found.received.length ↔ f.Complete arrived := by
  rw [h.count, List.count_eq_length, h.received, Outgoing.complete_iff]
  simp only [List.mem_map, List.mem_range, forall_exists_index, and_imp,
    forall_apply_eq_imp_iff₂, true_eq_decide_iff]

/-- A complete buffer is the frame. -/
theorem wire_eq (h : found.Holds f arrived) (hcomplete : f.Complete arrived) :
    found.wire = f.wire := by
  refine h.agrees.eq fragmentPayloadSize_pos fun i hi => ?_
  rw [List.mem_filter, List.mem_range, decide_eq_true_eq]
  exact ⟨hi, Outgoing.complete_iff.mp hcomplete i hi⟩

/-- A fragment that has arrived is in its place. -/
theorem payload_eq (h : found.Holds f arrived) (hi : i < f.count) (hmem : f.fragment i ∈ arrived) :
    (found.wire.drop (i * fragmentPayloadSize)).take
        (Chunks.piece fragmentPayloadSize f.wire i).length =
      Chunks.piece fragmentPayloadSize f.wire i := by
  have hlength := h.length
  refine List.ext_getElem? fun k => ?_
  by_cases hk : k < (Chunks.piece fragmentPayloadSize f.wire i).length
  · have hk' := hk
    rw [Chunks.length_piece, Nat.lt_min] at hk'
    have hdiv : (i * fragmentPayloadSize + k) / fragmentPayloadSize = i := by
      rw [Nat.mul_comm, Nat.mul_add_div fragmentPayloadSize_pos, Nat.div_eq_of_lt hk'.1,
        Nat.add_zero]
    rw [List.getElem?_take_of_lt hk, List.getElem?_drop, Chunks.getElem?_piece hk'.1]
    refine h.agrees.getElem? _ (by omega) ?_
    rw [hdiv, List.mem_filter, List.mem_range, decide_eq_true_eq]
    exact ⟨hi, hmem⟩
  · rw [List.getElem?_eq_none, List.getElem?_eq_none (Nat.le_of_not_lt hk)]
    rw [List.length_take]
    omega

/-- A payload that is placed is one more fragment, and one that is there already changes nothing. -/
theorem place (h : found.Holds f arrived) (hi : i < f.count) :
    ∃ placed, FrameReassembler.place found (i * fragmentPayloadSize)
        (Chunks.piece fragmentPayloadSize f.wire i) = .ok placed ∧
      placed.Holds f (f.fragment i :: arrived) := by
  rw [FrameReassembler.place, Nat.mul_div_cancel _ fragmentPayloadSize_pos,
    h.getElem?_received hi]
  -- a fragment that has arrived already carries the same bytes again
  by_cases hmem : f.fragment i ∈ arrived
  · refine ⟨found, ?_, h.congr fun j _ => ?_⟩
    · rw [if_pos (congrArg some (decide_eq_true hmem)),
        if_neg (not_not.mpr (h.payload_eq hi hmem))]
    · rw [List.mem_cons, or_iff_right_of_imp]
      intro heq
      rw [heq]
      exact hmem
  · refine ⟨_, if_neg fun heq => hmem (of_decide_eq_true (Option.some.inj heq)), ?_⟩
    have hstart := Outgoing.lt_count.mp hi
    have hlength := h.length
    have hsize : i < found.received.length := by
      rw [h.received, List.length_map, List.length_range]
      exact hi
    have hother : ∀ j < f.count, j ≠ i →
        (f.fragment j ∈ f.fragment i :: arrived ↔ f.fragment j ∈ arrived) := by
      intro j hj hne
      rw [List.mem_cons, or_iff_right]
      exact fun heq => hne (Outgoing.fragment_inj hj hi heq)
    constructor
    · show (Chunks.overwrite _ _ _ _).length = _
      rw [Chunks.length_overwrite, Chunks.length_piece]
      omega
    · show found.received.set i true = _
      refine List.ext_getElem? fun j => ?_
      rw [List.getElem?_set, List.getElem?_map]
      by_cases hji : i = j
      · subst hji
        rw [if_pos rfl, if_pos hsize, List.getElem?_range hi, Option.map_some,
          decide_eq_true List.mem_cons_self]
      · rw [if_neg hji, h.received, List.getElem?_map]
        by_cases hj : j < f.count
        · rw [List.getElem?_range hj, Option.map_some, Option.map_some,
            decide_eq_decide.mpr (hother j hj (Ne.symm hji))]
        · rw [List.getElem?_eq_none (by rw [List.length_range]; omega)]
          rfl
    · show found.count + 1 = (found.received.set i true).count true
      have hfalse : found.received[i] = false := by
        have hget := h.getElem?_received hi
        rw [List.getElem?_eq_getElem hsize, decide_eq_false hmem] at hget
        exact Option.some.inj hget
      rw [List.count_set hsize, hfalse, h.count]
      rfl
    · refine (h.agrees.overwrite fragmentPayloadSize_pos hi).mono fun j hj => ?_
      rw [List.mem_filter, List.mem_range, decide_eq_true_eq] at hj
      rw [List.mem_cons, List.mem_filter, List.mem_range, decide_eq_true_eq]
      by_cases hji : j = i
      · exact Or.inl hji
      · exact Or.inr ⟨hj.1, (hother j hj.1 hji).mp hj.2⟩

end Partial.Holds

/-! ## All pending frames -/

/-- The bytes of an entry. -/
def Partial.size (found : Partial) : Nat := found.wire.length

/-- What a reassembler holds once the fragments `arrived` have come: an entry for each frame of
which something is missing and something is there. -/
structure Assembles (frames : List Outgoing) (arrived : List Bytes) (s : FrameReassembler) :
    Prop where
  pending : ∀ id found, s.pending.find id = some found →
    ∃ f ∈ frames, f.id.toNat = id ∧ found.Holds f arrived ∧ ¬ f.Complete arrived ∧
      ∃ i < f.count, f.fragment i ∈ arrived
  absent : ∀ f ∈ frames, s.pending.find f.id.toNat = none →
    f.Complete arrived ∨ ∀ i < f.count, f.fragment i ∉ arrived
  bytes : s.bytes = s.pending.total Partial.size

/-- Nothing has expired, and there is room for the frame if it is new. -/
def Roomy (s : FrameReassembler) (fragment : Bytes) (now : Nat) : Prop :=
  (∀ entry ∈ s.pending.entries, now ≤ entry.2.touched + partialLifetime) ∧
    (s.pending.find (fragmentId fragment) = none →
      s.pending.entries.length < maxPending ∧
        fragmentTotal fragment ≤ maxPendingBytes - s.bytes)

instance (s : FrameReassembler) (fragment : Bytes) (now : Nat) : Decidable (Roomy s fragment now) :=
  inferInstanceAs (Decidable (_ ∧ (_ → _ ∧ _)))

namespace FrameReassembler

variable {s : FrameReassembler} {now id total : Nat}

theorem expire_of_fresh
    (h : ∀ entry ∈ s.pending.entries, now ≤ entry.2.touched + partialLifetime) :
    expire now s = s := by
  have hfold : ∀ (l : List (Nat × Partial)) (t : FrameReassembler),
      (∀ entry ∈ l, now ≤ entry.2.touched + partialLifetime) →
        l.foldl (fun s entry =>
          if entry.2.touched + partialLifetime < now then
            ({ pending := s.pending.erase entry.1
               bytes := s.bytes - entry.2.wire.length } : FrameReassembler)
          else s) t = t := by
    intro l
    induction l with
    | nil => exact fun _ _ => rfl
    | cons entry l ih =>
      intro t hl
      rw [List.foldl_cons, if_neg (Nat.not_lt.mpr (hl entry List.mem_cons_self))]
      exact ih t fun e he => hl e (List.mem_cons_of_mem _ he)
  exact hfold _ s h

theorem admit_of_find {found : Partial} (h : s.pending.find id = some found) :
    openPartial id total now s = (.ok found, s) := by
  rw [openPartial, Exec.bind_apply_ok (Exec.state_apply s), h]
  rfl

theorem admit_of_room (h : s.pending.find id = none)
    (hcount : s.pending.entries.length < maxPending)
    (hbytes : total ≤ maxPendingBytes - s.bytes) :
    openPartial id total now s =
      (.ok { wire := List.replicate total 0
             received := List.replicate (Chunks.count fragmentPayloadSize total) false
             count := 0
             touched := now },
        { pending := s.pending.insert id
            { wire := List.replicate total 0
              received := List.replicate (Chunks.count fragmentPayloadSize total) false
              count := 0
              touched := now }
          bytes := s.bytes + total }) := by
  rw [openPartial, Exec.bind_apply_ok (Exec.state_apply s), h]
  dsimp only
  rw [if_neg (by omega)]
  rfl

/-- The end of `Accept`: the entry goes back, or the frame is complete and leaves. -/
theorem put_eq {found placed : Partial} {offset : Nat} {payload : Bytes}
    (htotal : found.wire.length = total) (hplace : place found offset payload = .ok placed) :
    put found id total offset now payload s =
      if placed.count ≠ placed.received.length then
        (.ok none, { s with pending := s.pending.insert id { placed with touched := now } })
      else
        (.ok (some placed.wire),
          { pending := (s.pending.insert id { placed with touched := now }).erase id
            bytes := s.bytes - total }) := by
  have hcheck : Exec.check (fun _ : FrameReassembler => place found offset payload) s =
      (.ok placed, s) := Exec.check_apply_ok hplace
  rw [put, if_neg (not_not.mpr htotal), Exec.bind_apply_ok hcheck]
  dsimp only
  rw [Exec.bind_apply_ok (Exec.update_apply _ s)]
  by_cases hcount : placed.count ≠ placed.received.length
  · rw [if_pos hcount, if_pos hcount]
    rfl
  · rw [if_neg hcount, if_neg hcount]
    rfl

end FrameReassembler

namespace Assembles

variable {frames : List Outgoing} {arrived arrived' : List Bytes} {s : FrameReassembler}
  {f g : Outgoing} {i now : Nat}

/-- Only the fragments of the frames matter. -/
theorem congr (h : Assembles frames arrived s)
    (hsame : ∀ f ∈ frames, ∀ i < f.count, (f.fragment i ∈ arrived' ↔ f.fragment i ∈ arrived)) :
    Assembles frames arrived' s := by
  have hcomplete : ∀ f ∈ frames, (f.Complete arrived' ↔ f.Complete arrived) := by
    intro f hf
    rw [Outgoing.complete_iff, Outgoing.complete_iff]
    exact forall₂_congr (hsame f hf)
  constructor
  · intro id found hfind
    obtain ⟨f, hf, hid, hholds, hopen, i, hi, hmem⟩ := h.pending id found hfind
    exact ⟨f, hf, hid, hholds.congr (hsame f hf), fun hc => hopen ((hcomplete f hf).mp hc), i, hi,
      (hsame f hf i hi).mpr hmem⟩
  · intro f hf hfind
    refine (h.absent f hf hfind).imp (hcomplete f hf).mpr fun hnone i hi hmem => ?_
    exact hnone i hi ((hsame f hf i hi).mp hmem)
  · exact h.bytes

theorem eq_of_id_eq (hids : (frames.map Outgoing.id).Nodup) (hf : f ∈ frames) (hg : g ∈ frames)
    (h : f.id.toNat = g.id.toNat) : f = g :=
  List.inj_on_of_nodup_map hids hf hg (UInt64.toNat_inj.mp h)

/-- A fragment of one frame is none of another. -/
theorem mem_cons_iff (hids : (frames.map Outgoing.id).Nodup) (hf : f ∈ frames) (hg : g ∈ frames)
    (hne : g ≠ f) (j : Nat) :
    g.fragment j ∈ f.fragment i :: arrived ↔ g.fragment j ∈ arrived := by
  rw [List.mem_cons, or_iff_right]
  intro heq
  exact hne (List.inj_on_of_nodup_map hids hg hf (Outgoing.id_eq_of_fragment_eq heq))

/-- Every frame that is not complete has, or gets, an entry that holds what has arrived of it. -/
theorem openPartial (hids : (frames.map Outgoing.id).Nodup) (h : Assembles frames arrived s)
    (hf : f ∈ frames) (hopen : ¬ f.Complete arrived) (hroom : Roomy s (f.fragment i) now) :
    ∃ found s₁, FrameReassembler.openPartial f.id.toNat f.wire.length now s = (.ok found, s₁) ∧
      found.Holds f arrived ∧ s₁.pending.find f.id.toNat = some found ∧
      (∀ id, id ≠ f.id.toNat → s₁.pending.find id = s.pending.find id) ∧
      s₁.bytes = s₁.pending.total Partial.size := by
  cases hfind : s.pending.find f.id.toNat with
  | some found =>
    obtain ⟨g, hg, hid, hholds, -⟩ := h.pending _ _ hfind
    rw [eq_of_id_eq hids hg hf hid] at hholds
    exact ⟨found, s, FrameReassembler.admit_of_find hfind, hholds, hfind, fun _ _ => rfl, h.bytes⟩
  | none =>
    have hnone := (h.absent f hf hfind).resolve_left hopen
    obtain ⟨hcount, hbytes⟩ := hroom.2 (by rw [Outgoing.fragmentId_fragment]; exact hfind)
    rw [Outgoing.fragmentTotal_fragment] at hbytes
    refine ⟨_, _, FrameReassembler.admit_of_room hfind hcount hbytes, Partial.Holds.made hnone now,
      OrdMap.find_insert_self _ _ _, fun id hne => OrdMap.find_insert_of_ne _ _ hne, ?_⟩
    have htotal := OrdMap.total_insert Partial.size s.pending f.id.toNat
      { wire := List.replicate f.wire.length 0
        received := List.replicate (Chunks.count fragmentPayloadSize f.wire.length) false
        count := 0
        touched := now }
    rw [hfind, Option.elim, Nat.add_zero, ← h.bytes] at htotal
    rw [htotal, Partial.size, List.length_replicate]

/-- The other frames are as they were. -/
theorem of_rest {s' : FrameReassembler} (hids : (frames.map Outgoing.id).Nodup)
    (h : Assembles frames arrived s) (hf : f ∈ frames) (hi : i < f.count)
    (hrest : ∀ id, id ≠ f.id.toNat → s'.pending.find id = s.pending.find id)
    (hbytes : s'.bytes = s'.pending.total Partial.size)
    (hself : (∃ found, s'.pending.find f.id.toNat = some found ∧
        found.Holds f (f.fragment i :: arrived) ∧ ¬ f.Complete (f.fragment i :: arrived)) ∨
      s'.pending.find f.id.toNat = none ∧ f.Complete (f.fragment i :: arrived)) :
    Assembles frames (f.fragment i :: arrived) s' := by
  have hother : ∀ g ∈ frames, g ≠ f →
      (g.Complete (f.fragment i :: arrived) ↔ g.Complete arrived) := by
    intro g hg hne
    rw [Outgoing.complete_iff, Outgoing.complete_iff]
    exact forall₂_congr fun j _ => mem_cons_iff hids hf hg hne j
  constructor
  · intro id found hfind
    by_cases hid : id = f.id.toNat
    · subst hid
      rcases hself with ⟨found', hfind', hholds, hopen⟩ | ⟨hnone, -⟩
      · rw [hfind] at hfind'
        cases hfind'
        exact ⟨f, hf, rfl, hholds, hopen, i, hi, List.mem_cons_self⟩
      · rw [hfind] at hnone
        cases hnone
    · rw [hrest id hid] at hfind
      obtain ⟨g, hg, rfl, hholds, hopen, j, hj, hmem⟩ := h.pending id found hfind
      have hne : g ≠ f := fun heq => hid (congrArg (fun f => f.id.toNat) heq)
      exact ⟨g, hg, rfl, hholds.congr fun j _ => mem_cons_iff hids hf hg hne j,
        fun hc => hopen ((hother g hg hne).mp hc), j, hj, List.mem_cons_of_mem _ hmem⟩
  · intro g hg hfind
    by_cases hne : g = f
    · subst hne
      rcases hself with ⟨found, hfind', -⟩ | ⟨-, hc⟩
      · rw [hfind] at hfind'
        cases hfind'
      · exact Or.inl hc
    · have hid : g.id.toNat ≠ f.id.toNat := fun heq => hne (eq_of_id_eq hids hg hf heq)
      rw [hrest _ hid] at hfind
      refine (h.absent g hg hfind).imp (hother g hg hne).mpr fun hnone j hj hmem => ?_
      exact hnone j hj ((mem_cons_iff hids hf hg hne j).mp hmem)
  · exact hbytes

/-- **One call**: a fragment of a frame that is not complete yet is taken, and the frame comes out
if that was the last one missing. -/
theorem accept (hids : (frames.map Outgoing.id).Nodup) (h : Assembles frames arrived s)
    (hf : f ∈ frames) (hi : i < f.count) (hopen : ¬ f.Complete arrived)
    (hroom : Roomy s (f.fragment i) now) :
    ∃ s', FrameReassembler.accept (f.fragment i) now s =
        (.ok (if f.Complete (f.fragment i :: arrived) then some f.wire else none), s') ∧
      Assembles frames (f.fragment i :: arrived) s' ∧
      ∀ id found, s'.pending.find id = some found →
        id = f.id.toNat ∧ found.touched = now ∨
          id ≠ f.id.toNat ∧ s.pending.find id = some found := by
  obtain ⟨found, s₁, hadmit, hholds, hfind, hrest, hbytes⟩ := h.openPartial hids hf hopen hroom
  obtain ⟨placed, hplace, hplaced⟩ := hholds.place hi
  have hcomplete := hplaced.count_eq_length_iff
  have hinsert := OrdMap.total_insert Partial.size s₁.pending f.id.toNat
    { placed with touched := now }
  have hsize : Partial.size { placed with touched := now } = found.size :=
    hplaced.length.trans hholds.length.symm
  rw [hfind, Option.elim, hsize] at hinsert
  rw [FrameReassembler.accept_fragment_eq hi, FrameReassembler.expire_of_fresh hroom.1,
    Exec.bind_apply_ok hadmit, FrameReassembler.put_eq hholds.length hplace]
  by_cases hc : f.Complete (f.fragment i :: arrived)
  -- the last missing fragment: the frame is whole and leaves the pending ones
  · have hwire : some placed.wire = some f.wire := congrArg some (hplaced.wire_eq hc)
    rw [if_neg (not_not.mpr (hcomplete.mpr hc)), if_pos hc, hwire]
    refine ⟨_, rfl, h.of_rest hids hf hi (fun id hne => ?_) ?_ ?_, fun id found' hfind' => ?_⟩
    · rw [OrdMap.find_erase_of_ne _ hne, OrdMap.find_insert_of_ne _ _ hne, hrest id hne]
    · have herase := OrdMap.total_erase Partial.size
        (s₁.pending.insert f.id.toNat { placed with touched := now }) f.id.toNat
      rw [OrdMap.find_insert_self, Option.elim, hsize, Partial.size, hholds.length] at herase
      show s₁.bytes - f.wire.length = ((s₁.pending.insert f.id.toNat
        { placed with touched := now }).erase f.id.toNat).total Partial.size
      omega
    · exact Or.inr ⟨OrdMap.find_erase_self _ _, hc⟩
    · by_cases hne : id = f.id.toNat
      · subst hne
        rw [OrdMap.find_erase_self] at hfind'
        cases hfind'
      · rw [OrdMap.find_erase_of_ne _ hne, OrdMap.find_insert_of_ne _ _ hne, hrest id hne] at hfind'
        exact Or.inr ⟨hne, hfind'⟩
  -- the frame still waits for a fragment
  · rw [if_pos fun heq => hc (hcomplete.mp heq), if_neg hc]
    refine ⟨_, rfl, h.of_rest hids hf hi (fun id hne => ?_) ?_ ?_, fun id found' hfind' => ?_⟩
    · rw [OrdMap.find_insert_of_ne _ _ hne, hrest id hne]
    · show s₁.bytes = (s₁.pending.insert f.id.toNat
        { placed with touched := now }).total Partial.size
      omega
    · exact Or.inl ⟨_, OrdMap.find_insert_self _ _ _, hplaced.touch now, hc⟩
    · by_cases hne : id = f.id.toNat
      · subst hne
        rw [OrdMap.find_insert_self] at hfind'
        cases hfind'
        exact Or.inl ⟨rfl, rfl⟩
      · rw [OrdMap.find_insert_of_ne _ _ hne, hrest id hne] at hfind'
        exact Or.inr ⟨hne, hfind'⟩

/-- Which frames have an entry depends on what has arrived only, and so does the entry's size. -/
theorem map_size_find {s₁ s₂ : FrameReassembler} (hids : (frames.map Outgoing.id).Nodup)
    (h₁ : Assembles frames arrived s₁) (h₂ : Assembles frames arrived s₂) (id : Nat) :
    (s₁.pending.find id).map Partial.size = (s₂.pending.find id).map Partial.size := by
  have hsome : ∀ {s s' : FrameReassembler} {found : Partial}, Assembles frames arrived s →
      Assembles frames arrived s' → s.pending.find id = some found →
        ∃ found', s'.pending.find id = some found' ∧ found'.size = found.size := by
    intro s s' found h h' hfind
    obtain ⟨f, hf, rfl, hholds, hopen, i, hi, hmem⟩ := h.pending id found hfind
    cases hfind' : s'.pending.find f.id.toNat with
    | none =>
      rcases h'.absent f hf hfind' with hc | hnone
      · exact absurd hc hopen
      · exact absurd hmem (hnone i hi)
    | some found' =>
      obtain ⟨g, hg, hid, hholds', -⟩ := h'.pending _ _ hfind'
      rw [eq_of_id_eq hids hg hf hid] at hholds'
      exact ⟨found', rfl, hholds'.length.trans hholds.length.symm⟩
  cases hfind : s₁.pending.find id with
  | some found =>
    obtain ⟨found', hfind', hsize⟩ := hsome h₁ h₂ hfind
    rw [hfind', Option.map_some, Option.map_some, hsize]
  | none =>
    cases hfind' : s₂.pending.find id with
    | none => rfl
    | some found' =>
      obtain ⟨found, hfound, -⟩ := hsome h₂ h₁ hfind'
      rw [hfind] at hfound
      cases hfound

/-- A reassembler that was touched later has as much room. -/
theorem roomy {s₁ s₂ : FrameReassembler} {x : Bytes} (hids : (frames.map Outgoing.id).Nodup)
    (h₁ : Assembles frames arrived s₁) (h₂ : Assembles frames arrived s₂)
    (htouched : ∀ id p₁ p₂, s₁.pending.find id = some p₁ → s₂.pending.find id = some p₂ →
      p₁.touched ≤ p₂.touched) (hroom : Roomy s₁ x now) : Roomy s₂ x now := by
  have hsizes := map_size_find hids h₁ h₂
  have hnone : ∀ id, s₂.pending.find id = none ↔ s₁.pending.find id = none := by
    intro id
    rw [← Option.map_eq_none_iff (f := Partial.size), ← hsizes id, Option.map_eq_none_iff]
  constructor
  · rintro ⟨id, p₂⟩ hmem
    have hfind₂ := OrdMap.find_eq_some_iff.mpr hmem
    cases hfind₁ : s₁.pending.find id with
    | none =>
      rw [(hnone id).mpr hfind₁] at hfind₂
      cases hfind₂
    | some p₁ =>
      have hfresh := hroom.1 (id, p₁) (OrdMap.find_eq_some_iff.mp hfind₁)
      have hle := htouched id p₁ p₂ hfind₁ hfind₂
      dsimp only at hfresh ⊢
      omega
  · intro hfind
    obtain ⟨hcount, hbytes⟩ := hroom.2 ((hnone _).mp hfind)
    have hlength : s₂.pending.entries.length = s₁.pending.entries.length := by
      rw [OrdMap.length_eq_total, OrdMap.length_eq_total]
      refine OrdMap.total_congr fun id => ?_
      have hone := congrArg (Option.map fun _ => 1) (hsizes id)
      rw [Option.map_map, Option.map_map] at hone
      exact hone.symm
    have hsame : s₂.bytes = s₁.bytes := by
      rw [h₁.bytes, h₂.bytes]
      exact (OrdMap.total_congr hsizes).symm
    rw [hlength, hsame]
    exact ⟨hcount, hbytes⟩

/-- When everything has arrived nothing is pending. -/
theorem eq_empty (h : Assembles frames arrived s) (hall : ∀ f ∈ frames, f.Complete arrived) :
    s = {} := by
  have hpending : s.pending = OrdMap.empty := by
    refine OrdMap.ext_find fun id => ?_
    rw [OrdMap.find_empty, Option.eq_none_iff_forall_ne_some]
    intro found hfind
    obtain ⟨f, hf, -, -, hopen, -⟩ := h.pending id found hfind
    exact hopen (hall f hf)
  have hbytes := h.bytes
  rw [hpending, OrdMap.total_empty] at hbytes
  cases s
  cases hpending
  cases hbytes
  rfl

end Assembles

/-! ## Runs

A run is a list of fragments with the times of their arrival.  Nothing is said about their order, so
the induction goes over the list and the invariant speaks of the set of what has arrived. -/

/-- A fragment that arrives, and whether it is a repetition. -/
structure Arrival where
  fragment : Bytes
  now : Nat
  repeated : Bool
  deriving DecidableEq, Repr

/-- The answers to a list of arrivals, and the reassembler after them. -/
def deliver (s : FrameReassembler) : List Arrival →
    List (Except Error (Option Bytes)) × FrameReassembler
  | [] => ([], s)
  | a :: arrivals =>
    let (answer, s') := FrameReassembler.accept a.fragment a.now s
    let (answers, last) := deliver s' arrivals
    (answer :: answers, last)

/-- The arrivals without the repetitions. -/
def originals (arrivals : List Arrival) : List Arrival := arrivals.filter fun a => !a.repeated

/-- A repetition is of a fragment that has arrived, of a frame that is still pending. -/
def Repeats (frames : List Outgoing) : List Bytes → List Arrival → Prop
  | _, [] => True
  | arrived, a :: arrivals =>
    (a.repeated = true → a.fragment ∈ arrived ∧
      ∃ f ∈ frames, a.fragment ∈ f.fragments ∧ ¬ f.Complete arrived) ∧
    Repeats frames (a.fragment :: arrived) arrivals

/-- The frame whose last missing fragment this is. -/
def due (frames : List Outgoing) (arrived : List Bytes) (fragment : Bytes) : Option Bytes :=
  (frames.find? fun f =>
    decide (¬ f.Complete arrived ∧ f.Complete (fragment :: arrived))).map Outgoing.wire

/-- What is due at each arrival. -/
def dues (frames : List Outgoing) : List Bytes → List Arrival → List (Option Bytes)
  | _, [] => []
  | arrived, a :: arrivals =>
    due frames arrived a.fragment :: dues frames (a.fragment :: arrived) arrivals

section Due

variable {frames : List Outgoing} {arrived : List Bytes} {f g : Outgoing} {x : Bytes}

theorem Outgoing.complete_cons (h : f.Complete arrived) (x : Bytes) : f.Complete (x :: arrived) :=
  fun y hy => List.mem_cons_of_mem _ (h y hy)

/-- A fragment that completes a frame is one of it. -/
theorem Outgoing.mem_fragments_of_complete (hopen : ¬ f.Complete arrived)
    (hc : f.Complete (x :: arrived)) : x ∈ f.fragments := by
  rw [Outgoing.Complete] at hopen
  push Not at hopen
  obtain ⟨y, hy, hmissing⟩ := hopen
  rcases List.mem_cons.mp (hc y hy) with rfl | hmem
  · exact hy
  · exact absurd hmem hmissing

/-- A fragment belongs to one frame only. -/
theorem Outgoing.eq_of_mem_fragments (hids : (frames.map Outgoing.id).Nodup) (hf : f ∈ frames)
    (hg : g ∈ frames) (hxf : x ∈ f.fragments) (hxg : x ∈ g.fragments) : f = g := by
  obtain ⟨i, -, rfl⟩ := Outgoing.mem_fragments.mp hxf
  obtain ⟨j, -, heq⟩ := Outgoing.mem_fragments.mp hxg
  exact List.inj_on_of_nodup_map hids hf hg (Outgoing.id_eq_of_fragment_eq heq.symm)

theorem find?_due (hids : (frames.map Outgoing.id).Nodup) (hf : f ∈ frames)
    (hopen : ¬ f.Complete arrived) (hc : f.Complete (x :: arrived)) :
    frames.find? (fun f => decide (¬ f.Complete arrived ∧ f.Complete (x :: arrived))) =
      some f := by
  cases hfind : frames.find? fun f =>
      decide (¬ f.Complete arrived ∧ f.Complete (x :: arrived)) with
  | none => exact absurd (decide_eq_true ⟨hopen, hc⟩) (List.find?_eq_none.mp hfind f hf)
  | some g =>
    have hg : ¬ g.Complete arrived ∧ g.Complete (x :: arrived) := by
      have := List.find?_some hfind
      exact of_decide_eq_true this
    rw [Outgoing.eq_of_mem_fragments hids (List.mem_of_find?_eq_some hfind) hf
      (Outgoing.mem_fragments_of_complete hg.1 hg.2)
      (Outgoing.mem_fragments_of_complete hopen hc)]

/-- What is due at a fragment of a frame that is not complete. -/
theorem due_eq (hids : (frames.map Outgoing.id).Nodup) (hf : f ∈ frames) (hx : x ∈ f.fragments)
    (hopen : ¬ f.Complete arrived) :
    due frames arrived x = if f.Complete (x :: arrived) then some f.wire else none := by
  rw [due]
  split
  · rename_i hc
    rw [find?_due hids hf hopen hc]
    rfl
  · rename_i hc
    rw [List.find?_eq_none.mpr, Option.map_none]
    intro g hg hdue
    obtain ⟨hgopen, hgc⟩ := of_decide_eq_true hdue
    rw [Outgoing.eq_of_mem_fragments hids hf hg hx
      (Outgoing.mem_fragments_of_complete hgopen hgc)] at hc
    exact hc hgc

/-- Nothing is due at a fragment that has arrived before. -/
theorem due_of_mem (hx : x ∈ arrived) : due frames arrived x = none := by
  rw [due, List.find?_eq_none.mpr, Option.map_none]
  intro g _ hdue
  obtain ⟨hopen, hc⟩ := of_decide_eq_true hdue
  refine hopen fun y hy => ?_
  rcases List.mem_cons.mp (hc y hy) with rfl | hmem
  · exact hx
  · exact hmem

/-- The frames that are not complete are the one due now and those that are not complete then. -/
theorem filter_open_perm (hids : (frames.map Outgoing.id).Nodup) (hf : f ∈ frames)
    (hopen : ¬ f.Complete arrived) (hc : f.Complete (x :: arrived)) :
    (frames.filter fun g => decide (¬ g.Complete arrived)).Perm
      (f :: frames.filter fun g => decide (¬ g.Complete (x :: arrived))) := by
  have hnodup : frames.Nodup := List.Nodup.of_map _ hids
  rw [List.perm_ext_iff_of_nodup (hnodup.filter _)]
  · intro g
    rw [List.mem_cons, List.mem_filter, List.mem_filter, decide_eq_true_eq, decide_eq_true_eq]
    constructor
    · rintro ⟨hg, hgopen⟩
      by_cases hgc : g.Complete (x :: arrived)
      · exact Or.inl (Outgoing.eq_of_mem_fragments hids hg hf
          (Outgoing.mem_fragments_of_complete hgopen hgc)
          (Outgoing.mem_fragments_of_complete hopen hc))
      · exact Or.inr ⟨hg, hgc⟩
    · rintro (rfl | ⟨hg, hgc⟩)
      · exact ⟨hf, hopen⟩
      · exact ⟨hg, fun h => hgc (Outgoing.complete_cons h x)⟩
  · refine List.nodup_cons.mpr ⟨fun hmem => ?_, hnodup.filter _⟩
    exact of_decide_eq_true (List.mem_filter.mp hmem).2 hc

/-- Once everything has arrived, each frame has been due once. -/
theorem dues_perm (hids : (frames.map Outgoing.id).Nodup) :
    ∀ (arrivals : List Arrival) (arrived : List Bytes),
      (∀ f ∈ frames, ∀ y ∈ f.fragments, y ∈ arrived ∨ ∃ a ∈ arrivals, a.fragment = y) →
        ((dues frames arrived arrivals).filterMap id).Perm
          ((frames.filter fun f => decide (¬ f.Complete arrived)).map Outgoing.wire)
  | [], arrived, hall => by
    have hnone : frames.filter (fun f => decide (¬ f.Complete arrived)) = [] := by
      refine List.filter_eq_nil_iff.mpr fun f hf hopen => of_decide_eq_true hopen fun y hy => ?_
      rcases hall f hf y hy with hmem | ⟨a, ha, -⟩
      · exact hmem
      · cases ha
    rw [hnone]
    exact List.Perm.refl _
  | a :: arrivals, arrived, hall => by
    have ih := dues_perm hids arrivals (a.fragment :: arrived) fun f hf y hy => by
      rcases hall f hf y hy with hmem | ⟨b, hb, rfl⟩
      · exact Or.inl (List.mem_cons_of_mem _ hmem)
      · rcases List.mem_cons.mp hb with rfl | hb
        · exact Or.inl List.mem_cons_self
        · exact Or.inr ⟨b, hb, rfl⟩
    rw [dues]
    by_cases hdue : ∃ f ∈ frames, ¬ f.Complete arrived ∧ f.Complete (a.fragment :: arrived)
    · obtain ⟨f, hf, hopen, hc⟩ := hdue
      have hsome : due frames arrived a.fragment = some f.wire := by
        rw [due, find?_due hids hf hopen hc]
        rfl
      rw [hsome, List.filterMap_cons_some (f := id) rfl]
      exact (ih.cons f.wire).trans ((filter_open_perm hids hf hopen hc).map Outgoing.wire).symm
    · push Not at hdue
      have hnone : due frames arrived a.fragment = none := by
        rw [due, List.find?_eq_none.mpr, Option.map_none]
        intro g hg h
        obtain ⟨hopen, hc⟩ := of_decide_eq_true h
        exact hdue g hg hopen hc
      have hsame : frames.filter (fun f => decide (¬ f.Complete arrived)) =
          frames.filter fun f => decide (¬ f.Complete (a.fragment :: arrived)) := by
        refine List.filter_congr fun f hf => decide_eq_decide.mpr ?_
        exact ⟨fun hopen => hdue f hf hopen, fun h hc => h (Outgoing.complete_cons hc _)⟩
      rw [hnone, List.filterMap_cons_none rfl, hsame]
      exact ih

end Due

/-- The state of a reassembler after an arrival. -/
def arrive (s : FrameReassembler) (a : Arrival) : FrameReassembler :=
  (FrameReassembler.accept a.fragment a.now s).2

/-- A run without the repetitions, `s₁`, beside the run with them, `s₂`, and what is still to
arrive. -/
structure Paired (frames : List Outgoing) (arrived : List Bytes) (s₁ s₂ : FrameReassembler)
    (rest : List Arrival) : Prop where
  left : Assembles frames arrived s₁
  right : Assembles frames arrived s₂
  touched : ∀ id p₁ p₂, s₁.pending.find id = some p₁ → s₂.pending.find id = some p₂ →
    p₁.touched ≤ p₂.touched
  past : ∀ id p₁, s₁.pending.find id = some p₁ → ∀ a ∈ rest, p₁.touched ≤ a.now
  steady : rest.Pairwise fun a b => a.now ≤ b.now
  repeats : Repeats frames arrived rest
  once : ((originals rest).map Arrival.fragment).Nodup
  fresh : ∀ a ∈ originals rest, a.fragment ∉ arrived ∧ ∃ f ∈ frames, a.fragment ∈ f.fragments
  covers : ∀ f ∈ frames, ∀ y ∈ f.fragments, y ∈ arrived ∨ ∃ a ∈ originals rest, a.fragment = y
  room : Run.Along arrive (fun s a => Roomy s a.fragment a.now) s₁ (originals rest)

namespace Paired

variable {frames : List Outgoing} {arrived : List Bytes} {s₁ s₂ : FrameReassembler}
  {rest : List Arrival} {a : Arrival}

theorem originals_cons (ha : a.repeated = false) :
    originals (a :: rest) = a :: originals rest :=
  List.filter_cons_of_pos (by rw [ha]; rfl)

theorem originals_cons_repeated (ha : a.repeated = true) :
    originals (a :: rest) = originals rest :=
  List.filter_cons_of_neg (by rw [ha]; exact Bool.false_ne_true)

/-- Both runs take a fragment that arrives for the first time, with the same answer. -/
theorem original (hids : (frames.map Outgoing.id).Nodup) (ha : a.repeated = false)
    (h : Paired frames arrived s₁ s₂ (a :: rest)) :
    ∃ s₁' s₂',
      FrameReassembler.accept a.fragment a.now s₁ = (.ok (due frames arrived a.fragment), s₁') ∧
      FrameReassembler.accept a.fragment a.now s₂ = (.ok (due frames arrived a.fragment), s₂') ∧
      Paired frames (a.fragment :: arrived) s₁' s₂' rest := by
  obtain ⟨hleft, hright, htouched, hpast, hsteady, hrepeats, honce, hfresh, hcovers, hroom⟩ := h
  rw [originals_cons ha] at honce hfresh hcovers hroom
  rw [List.map_cons, List.nodup_cons] at honce
  rw [List.pairwise_cons] at hsteady
  obtain ⟨hnew, f, hf, hx⟩ := hfresh a List.mem_cons_self
  have hopen : ¬ f.Complete arrived := fun hc => hnew (hc _ hx)
  have hdue := due_eq hids hf hx hopen
  obtain ⟨i, hi, hfragment⟩ := Outgoing.mem_fragments.mp hx
  rw [← hfragment] at hdue
  have hroom₂ := hleft.roomy hids hright htouched hroom.1
  have hroom₁ : Roomy s₁ a.fragment a.now := hroom.1
  rw [← hfragment] at hroom₁ hroom₂
  -- both reassemblers take the fragment, and only its frame is touched
  obtain ⟨s₁', haccept₁, hassembles₁, htouch₁⟩ := hleft.accept hids hf hi hopen hroom₁
  obtain ⟨s₂', haccept₂, hassembles₂, htouch₂⟩ := hright.accept hids hf hi hopen hroom₂
  rw [← hdue, hfragment] at haccept₁ haccept₂
  rw [hfragment] at hassembles₁ hassembles₂
  refine ⟨s₁', s₂', haccept₁, haccept₂, hassembles₁, hassembles₂, ?_, ?_, hsteady.2, hrepeats.2,
    honce.2, ?_, ?_, ?_⟩
  · intro id p₁ p₂ hfind₁ hfind₂
    rcases htouch₁ id p₁ hfind₁ with ⟨hid, hnow₁⟩ | ⟨hid, hold₁⟩
    · rcases htouch₂ id p₂ hfind₂ with ⟨-, hnow₂⟩ | ⟨hne, -⟩
      · rw [hnow₁, hnow₂]
      · exact absurd hid hne
    · rcases htouch₂ id p₂ hfind₂ with ⟨heq, -⟩ | ⟨-, hold₂⟩
      · exact absurd heq hid
      · exact htouched id p₁ p₂ hold₁ hold₂
  · intro id p₁ hfind₁ b hb
    rcases htouch₁ id p₁ hfind₁ with ⟨-, hnow₁⟩ | ⟨-, hold₁⟩
    · rw [hnow₁]
      exact hsteady.1 b hb
    · exact hpast id p₁ hold₁ b (List.mem_cons_of_mem _ hb)
  · intro b hb
    obtain ⟨hnotin, hframe⟩ := hfresh b (List.mem_cons_of_mem _ hb)
    refine ⟨fun hmem => ?_, hframe⟩
    rcases List.mem_cons.mp hmem with heq | hmem
    · exact honce.1 (heq ▸ List.mem_map_of_mem hb)
    · exact hnotin hmem
  · intro g hg y hy
    rcases hcovers g hg y hy with hmem | ⟨b, hb, rfl⟩
    · exact Or.inl (List.mem_cons_of_mem _ hmem)
    · rcases List.mem_cons.mp hb with rfl | hb
      · exact Or.inl List.mem_cons_self
      · exact Or.inr ⟨b, hb, rfl⟩
  · have hnext := hroom.2
    rw [arrive, haccept₁] at hnext
    exact hnext

/-- A repetition changes nothing but the time of its frame. -/
theorem repetition (hids : (frames.map Outgoing.id).Nodup) (ha : a.repeated = true)
    (h : Paired frames arrived s₁ s₂ (a :: rest)) :
    due frames arrived a.fragment = none ∧
    ∃ s₂', FrameReassembler.accept a.fragment a.now s₂ = (.ok none, s₂') ∧
      Paired frames (a.fragment :: arrived) s₁ s₂' rest := by
  obtain ⟨hleft, hright, htouched, hpast, hsteady, hrepeats, honce, hfresh, hcovers, hroom⟩ := h
  rw [originals_cons_repeated ha] at honce hfresh hcovers hroom
  rw [List.pairwise_cons] at hsteady
  obtain ⟨hmem, f, hf, hx, hopen⟩ := hrepeats.1 ha
  have hnone : due frames arrived a.fragment = none := due_of_mem hmem
  have hdue := due_eq hids hf hx hopen
  obtain ⟨i, hi, hfragment⟩ := Outgoing.mem_fragments.mp hx
  -- Something of the frame is still to come, and nothing has expired by then.
  have hroom₂ : Roomy s₂ a.fragment a.now := by
    constructor
    · obtain ⟨y, hy, hmissing⟩ : ∃ y ∈ f.fragments, y ∉ arrived := by
        rw [Outgoing.Complete] at hopen
        push Not at hopen
        exact hopen
      obtain ⟨b, hb, -⟩ := (hcovers f hf y hy).resolve_left hmissing
      obtain ⟨next, later, hnext⟩ := List.exists_cons_of_ne_nil (List.ne_nil_of_mem hb)
      rw [hnext] at hroom
      have hnow : a.now ≤ next.now := by
        refine hsteady.1 next (List.mem_of_mem_filter (p := fun a => !a.repeated) ?_)
        rw [← originals, hnext]
        exact List.mem_cons_self
      intro entry hentry
      exact hnow.trans ((hleft.roomy hids hright htouched hroom.1).1 entry hentry)
    · intro hfind
      rw [← hfragment, Outgoing.fragmentId_fragment] at hfind
      rcases hright.absent f hf hfind with hc | habsent
      · exact absurd hc hopen
      · exact absurd (hfragment ▸ hmem) (habsent i hi)
  rw [← hfragment] at hroom₂ hdue
  obtain ⟨s₂', haccept, hassembles, htouch⟩ := hright.accept hids hf hi hopen hroom₂
  rw [← hdue, hfragment, hnone] at haccept
  rw [hfragment] at hassembles
  have hsame : ∀ y, y ∈ a.fragment :: arrived ↔ y ∈ arrived := by
    intro y
    rw [List.mem_cons, or_iff_right_of_imp]
    intro heq
    rw [heq]
    exact hmem
  refine ⟨hnone, s₂', haccept, hleft.congr fun _ _ _ _ => hsame _, hassembles, ?_, ?_, hsteady.2,
    hrepeats.2, honce, ?_, ?_, hroom⟩
  · intro id p₁ p₂ hfind₁ hfind₂
    rcases htouch id p₂ hfind₂ with ⟨-, hnow⟩ | ⟨-, hold⟩
    · rw [hnow]
      exact hpast id p₁ hfind₁ a List.mem_cons_self
    · exact htouched id p₁ p₂ hfind₁ hold
  · exact fun id p₁ hfind b hb => hpast id p₁ hfind b (List.mem_cons_of_mem _ hb)
  · intro b hb
    rw [hsame]
    exact hfresh b hb
  · intro g hg y hy
    rw [hsame]
    exact hcovers g hg y hy

/-- The answers of the two runs. -/
theorem deliver (hids : (frames.map Outgoing.id).Nodup) :
    ∀ {rest : List Arrival} {arrived : List Bytes} {s₁ s₂ : FrameReassembler},
      Paired frames arrived s₁ s₂ rest →
        Transport.deliver s₂ rest = ((dues frames arrived rest).map .ok, {}) ∧
        Transport.deliver s₁ (originals rest) =
          (((rest.zip (dues frames arrived rest)).filter fun p => !p.1.repeated).map
            fun p => .ok p.2, {})
  | [], arrived, s₁, s₂, h => by
    have hall : ∀ f ∈ frames, f.Complete arrived := by
      intro f hf y hy
      rcases h.covers f hf y hy with hmem | ⟨a, ha, -⟩
      · exact hmem
      · cases ha
    rw [h.left.eq_empty hall, h.right.eq_empty hall]
    exact ⟨rfl, rfl⟩
  | a :: rest, arrived, s₁, s₂, h => by
    cases ha : a.repeated with
    | false =>
      obtain ⟨s₁', s₂', h₁, h₂, hnext⟩ := h.original hids ha
      obtain ⟨ih₂, ih₁⟩ := deliver hids hnext
      rw [originals_cons ha, dues, List.zip_cons_cons, List.filter_cons_of_pos (by rw [ha]; rfl),
        Transport.deliver, Transport.deliver, h₁, h₂]
      dsimp only
      rw [ih₁, ih₂]
      exact ⟨rfl, rfl⟩
    | true =>
      obtain ⟨hnone, s₂', h₂, hnext⟩ := h.repetition hids ha
      obtain ⟨ih₂, ih₁⟩ := deliver hids hnext
      rw [originals_cons_repeated ha, dues, List.zip_cons_cons,
        List.filter_cons_of_neg (by rw [ha]; exact Bool.false_ne_true), Transport.deliver,
          h₂, hnone]
      dsimp only
      rw [ih₂]
      exact ⟨rfl, ih₁⟩

end Paired

section Start

variable {frames : List Outgoing}

theorem Assembles.start (frames : List Outgoing) : Assembles frames [] {} where
  pending _ _ h := nomatch h
  absent _ _ _ := Or.inr fun _ _ => List.not_mem_nil
  bytes := rfl

theorem Outgoing.nodup_fragments (f : Outgoing) : f.fragments.Nodup := by
  rw [Outgoing.fragments_eq]
  refine List.Nodup.map_on (fun i hi j hj heq => ?_) List.nodup_range
  exact Outgoing.fragment_inj (List.mem_range.mp hi) (List.mem_range.mp hj) heq

/-- All fragments of all frames are different. -/
theorem nodup_fragments (hids : (frames.map Outgoing.id).Nodup) :
    (frames.flatMap Outgoing.fragments).Nodup := by
  rw [List.nodup_flatMap]
  refine ⟨fun f _ => f.nodup_fragments, ?_⟩
  have hne : frames.Pairwise fun f g => f.id ≠ g.id := List.pairwise_map.mp hids
  refine hne.imp fun {f g} hid x hxf hxg => hid ?_
  obtain ⟨i, -, rfl⟩ := Outgoing.mem_fragments.mp hxf
  obtain ⟨j, -, heq⟩ := Outgoing.mem_fragments.mp hxg
  exact Outgoing.id_eq_of_fragment_eq heq.symm

/-- Nothing is due at a repetition. -/
theorem dues_repeated : ∀ {arrivals : List Arrival} {arrived : List Bytes},
    Repeats frames arrived arrivals →
      ∀ p ∈ arrivals.zip (dues frames arrived arrivals), p.1.repeated = true → p.2 = none
  | [], _, _, _, hp, _ => nomatch hp
  | a :: arrivals, arrived, hrepeats, p, hp, hrepeated => by
    rw [dues, List.zip_cons_cons] at hp
    rcases List.mem_cons.mp hp with rfl | hp
    · exact due_of_mem (hrepeats.1 hrepeated).1
    · exact dues_repeated hrepeats.2 p hp hrepeated

end Start

/-- **Reassembly.**  The fragments of frames with different numbers arrive in any order, on a clock
that does not go back, and some of them are repeated while their frame is still pending.  As long as
nothing expires and the limits are not exceeded in the run without the repetitions, every arrival is
answered with the frame whose last missing fragment it is, and with nothing otherwise; each frame
comes out exactly once; nothing stays pending; and the repetitions, which are answered with nothing,
leave all other answers as they are without them. -/
theorem reassembles {frames : List Outgoing} (hids : (frames.map Outgoing.id).Nodup)
    {arrivals : List Arrival}
    (hall : ((originals arrivals).map Arrival.fragment).Perm (frames.flatMap Outgoing.fragments))
    (hrepeats : Repeats frames [] arrivals)
    (hsteady : arrivals.Pairwise fun a b => a.now ≤ b.now)
    (hroom : Run.Along arrive (fun s a => Roomy s a.fragment a.now) {} (originals arrivals)) :
    deliver {} arrivals = ((dues frames [] arrivals).map .ok, {}) ∧
    ((dues frames [] arrivals).filterMap id).Perm (frames.map Outgoing.wire) ∧
    deliver {} (originals arrivals) =
      (((arrivals.zip (deliver {} arrivals).1).filter fun p => !p.1.repeated).map Prod.snd, {}) ∧
    ∀ p ∈ arrivals.zip (deliver {} arrivals).1, p.1.repeated = true → p.2 = .ok none := by
  have hmem : ∀ x, x ∈ (originals arrivals).map Arrival.fragment ↔
      ∃ f ∈ frames, x ∈ f.fragments := by
    intro x
    rw [hall.mem_iff, List.mem_flatMap]
  have hpaired : Paired frames [] {} {} arrivals := by
    refine ⟨.start frames, .start frames, fun _ _ _ h => (nomatch h),
      fun _ _ h => (nomatch h), hsteady,
      hrepeats, ?_, fun a ha => ⟨List.not_mem_nil, ?_⟩, fun f hf y hy => Or.inr ?_, hroom⟩
    · exact hall.nodup_iff.mpr (nodup_fragments hids)
    · exact (hmem _).mp (List.mem_map_of_mem ha)
    · exact List.mem_map.mp ((hmem y).mpr ⟨f, hf, hy⟩)
  obtain ⟨hdeliver, horiginals⟩ := hpaired.deliver hids
  have hcovers : ∀ f ∈ frames, ∀ y ∈ f.fragments, y ∈ [] ∨ ∃ a ∈ arrivals, a.fragment = y := by
    intro f hf y hy
    obtain ⟨a, ha, heq⟩ := List.mem_map.mp ((hmem y).mpr ⟨f, hf, hy⟩)
    exact Or.inr ⟨a, List.mem_of_mem_filter ha, heq⟩
  have hopen : frames.filter (fun f => decide (¬ f.Complete [])) = frames := by
    refine List.filter_eq_self.mpr fun f _ => decide_eq_true fun hc => ?_
    exact absurd (Outgoing.complete_iff.mp hc 0 f.count_pos) List.not_mem_nil
  have hperm := dues_perm hids arrivals [] hcovers
  rw [hopen] at hperm
  refine ⟨hdeliver, hperm, ?_, ?_⟩
  · rw [horiginals, hdeliver, List.zip_map_right, List.filter_map, List.map_map]
    rfl
  · rw [hdeliver, List.zip_map_right]
    intro p hp hrepeated
    obtain ⟨q, hq, rfl⟩ := List.mem_map.mp hp
    exact congrArg Except.ok (dues_repeated hrepeats q hq hrepeated)

/-- A frame one byte too long for one fragment. -/
def pair : Outgoing where
  id := 1
  wire := List.replicate (fragmentPayloadSize + 1) 7
  id_ne := by decide
  wire_ne := List.replicate_succ_ne_nil
  length_le := by
    rw [List.length_replicate]
    decide

theorem pair_count : pair.count = 2 := by
  rw [Outgoing.count, pair, List.length_replicate]
  decide

theorem pair_fragments : pair.fragments = [pair.fragment 0, pair.fragment 1] := by
  rw [Outgoing.fragments_eq, pair_count]
  rfl

theorem pair_fragment_ne : pair.fragment 0 ≠ pair.fragment 1 := fun h =>
  absurd (Outgoing.fragment_inj (by rw [pair_count]; decide) (by rw [pair_count]; decide) h)
    Nat.zero_ne_one

/-- Its second fragment arrives first, and twice. -/
def pairArrivals : List Arrival :=
  [⟨pair.fragment 1, 0, false⟩, ⟨pair.fragment 1, 1, true⟩, ⟨pair.fragment 0, 2, false⟩]

theorem pair_open : ¬ pair.Complete [pair.fragment 1] := by
  intro hc
  have hmem := hc (pair.fragment 0) (by rw [pair_fragments]; exact List.mem_cons_self)
  exact pair_fragment_ne (List.mem_singleton.mp hmem)

theorem pair_ids : ([pair].map Outgoing.id).Nodup := List.nodup_singleton _

theorem pair_room : Run.Along arrive (fun s a => Roomy s a.fragment a.now) {}
    (originals pairArrivals) := by
  have hfirst : Roomy {} (pair.fragment 1) 0 := by
    refine ⟨fun _ h => absurd h List.not_mem_nil, fun _ => ⟨by decide, ?_⟩⟩
    rw [Outgoing.fragmentTotal_fragment, pair, List.length_replicate]
    decide
  obtain ⟨s', haccept, hassembles, htouched⟩ := (Assembles.start [pair]).accept
    pair_ids List.mem_cons_self (by rw [pair_count]; decide)
    (fun hc => pair_open (Outgoing.complete_cons hc _)) hfirst
  refine ⟨hfirst, ?_, trivial⟩
  rw [arrive, haccept]
  constructor
  · intro entry hentry
    rcases htouched entry.1 entry.2 (OrdMap.find_eq_some_iff.mpr hentry) with ⟨-, hnow⟩ | ⟨-, hold⟩
    · rw [hnow]
      decide
    · cases hold
  · intro hfind
    rw [Outgoing.fragmentId_fragment] at hfind
    rcases hassembles.absent pair List.mem_cons_self hfind with hc | hnone
    · exact absurd hc pair_open
    · exact absurd List.mem_cons_self (hnone 1 (by rw [pair_count]; decide))

theorem reassembles_pair :
    ((originals pairArrivals).map Arrival.fragment).Perm ([pair].flatMap Outgoing.fragments) ∧
    deliver {} pairArrivals = ((dues [pair] [] pairArrivals).map .ok, {}) ∧
    ((dues [pair] [] pairArrivals).filterMap id).Perm [pair.wire] := by
  have hall : ((originals pairArrivals).map Arrival.fragment).Perm
      ([pair].flatMap Outgoing.fragments) := by
    rw [List.flatMap_singleton, pair_fragments]
    exact List.Perm.swap _ _ _
  have hrepeats : Repeats [pair] [] pairArrivals := by
    refine ⟨nofun, fun _ => ⟨List.mem_cons_self, pair, List.mem_cons_self, ?_, pair_open⟩, nofun,
      trivial⟩
    rw [pair_fragments]
    exact List.mem_cons_of_mem _ List.mem_cons_self
  have h := reassembles pair_ids hall hrepeats (by decide) pair_room
  exact ⟨hall, h.1, h.2.1⟩

end Transport

end VeritasSync
