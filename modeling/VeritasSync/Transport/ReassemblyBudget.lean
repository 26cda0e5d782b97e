import VeritasSync.Transport.FrameFragments

/-!
# What a reassembler holds under hostile fragments

The peer chooses number, length and offset of every fragment.  `FrameReassembler` counts the bytes
of its pending frames beside the frames themselves and adjusts the counter in three places: when a
frame expires, when one is opened and when one is complete.  The counter and the indices are
unsigned, so a counter that drifts would wrap around.

Nothing is assumed about the fragments here, not even about the clock.

The checked version of `Accept` fails wherever the source would subtract more than there is or index
where there is nothing.  That it never fails, and computes the same, is what makes it admissible to
model `Accept` on natural numbers.  A hostile peer can make the reassembler refuse frames, since
what is pending counts against the budget until it expires, but it cannot make the counter drift.

## What is here

* `FrameReassembler.Bounded` — the counter is the sum of the buffers, within the limits, and every
  pending frame lacks a fragment.
* `FrameReassembler.acceptChecked` — `Accept` with every subtraction and every index checked.
* `FrameReassembler.bounded_accept` — one call keeps the invariant and fails no check.
* `reassembler_bounded` — the invariant over any sequence of calls.
-/

set_option autoImplicit false

namespace VeritasSync

namespace Transport

/-- A bitmap that is not full, with its counter. -/
structure Partial.Open (found : Partial) : Prop where
  received : found.received.length = Chunks.count fragmentPayloadSize found.wire.length
  count : found.count = found.received.count true
  count_lt : found.count < found.received.length

namespace FrameReassembler

/-- What holds of a reassembler between two calls.  The counter is a sum that is never computed, so
it has to be right at every point at which it is used. -/
structure Bounded (s : FrameReassembler) : Prop where
  bytes : s.bytes = s.pending.total Partial.size
  bytes_le : s.bytes ≤ maxPendingBytes
  length_le : s.pending.entries.length ≤ maxPending
  pending : ∀ id found, s.pending.find id = some found → found.Open

theorem Bounded.empty : Bounded {} :=
  ⟨rfl, Nat.zero_le _, Nat.zero_le _, nofun⟩

/-! ## The checks

One line for each operation on unsigned numbers in the function. -/

/-- A difference of unsigned numbers, if it does not wrap around. -/
def checkedSub (a b : Nat) : Option Nat := if b ≤ a then some (a - b) else none

theorem checkedSub_of_le {a b : Nat} (h : b ≤ a) : checkedSub a b = some (a - b) := if_pos h

/-- The loop over the expired frames, with its subtraction checked. -/
def expireChecked (now : Nat) (s : FrameReassembler) : Option FrameReassembler :=
  s.pending.entries.foldlM
    (fun s entry =>
      if entry.2.touched + partialLifetime < now then
        (checkedSub s.bytes entry.2.wire.length).map fun bytes =>
          { pending := s.pending.erase entry.1, bytes := bytes }
      else some s)
    s

/-- `openPartial`, with the room that is left checked. -/
def openPartialChecked (id total now : Nat) (s : FrameReassembler) :
    Option (Except Error Partial × FrameReassembler) :=
  if (s.pending.find id).isSome ∨ s.pending.entries.length ≥ maxPending then
    some (openPartial id total now s)
  else (checkedSub maxPendingBytes s.bytes).map fun _ => openPartial id total now s

/-- `place`, with the index into the bitmap and the range in the buffer checked. -/
def placeChecked (found : Partial) (offset : Nat) (payload : Bytes) :
    Option (Except Error Partial) :=
  if offset / fragmentPayloadSize < found.received.length ∧
      offset + payload.length ≤ found.wire.length then
    some (place found offset payload)
  else none

/-- `put`, with these checks and the subtraction at its end checked. -/
def putChecked (found : Partial) (id total offset now : Nat) (payload : Bytes)
    (s : FrameReassembler) : Option (Except Error (Option Bytes) × FrameReassembler) :=
  if found.wire.length ≠ total then some (put found id total offset now payload s)
  else
    (placeChecked found offset payload).bind fun placed =>
      match placed with
      | .error _ => some (put found id total offset now payload s)
      | .ok placed =>
        if placed.count ≠ placed.received.length then
          some (put found id total offset now payload s)
        else (checkedSub s.bytes total).map fun _ => put found id total offset now payload s

/-- `Accept`, with every subtraction and every index checked. -/
def acceptChecked (fragment : Bytes) (now : Nat) (s : FrameReassembler) :
    Option (Except Error (Option Bytes) × FrameReassembler) :=
  let id := fragmentId fragment
  let total := fragmentTotal fragment
  let offset := fragmentOffset fragment
  if fragment.length ≤ fragmentHeader ∨ fragment.length > fragmentHeader + fragmentPayloadSize ∨
      fragment.take 4 ≠ fragmentMagic then
    some (.error (.invalidArgument "invalid DataChannel fragment"), s)
  else if id = 0 ∨ total = 0 ∨ total > Wire.maxFrameSize ∨ offset ≥ total ∨
      offset % fragmentPayloadSize ≠ 0 then
    some (.error (.invalidArgument "invalid fragment range"), s)
  else do
    let size ← checkedSub fragment.length fragmentHeader
    let rest ← checkedSub total offset
    if size ≠ min fragmentPayloadSize rest then
      some (.error (.invalidArgument "invalid fragment range"), s)
    else do
      let s ← expireChecked now s
      match ← openPartialChecked id total now s with
      | (.error e, s) => some (.error e, s)
      | (.ok found, s) =>
        putChecked found id total offset now (fragment.drop fragmentHeader) s

/-! ## One call -/

variable {s : FrameReassembler} {now id total offset : Nat}

/-- What giving up some frames leaves. -/
structure Thins (now : Nat) (s s' : FrameReassembler) : Prop where
  bytes : s'.bytes = s'.pending.total Partial.size
  bytes_le : s'.bytes ≤ s.bytes
  length_le : s'.pending.entries.length ≤ s.pending.entries.length
  kept : ∀ id found, s'.pending.find id = some found → s.pending.find id = some found
  live : ∀ id found, s.pending.find id = some found → ¬ found.touched + partialLifetime < now →
    s'.pending.find id = some found

/-- One frame is given up. -/
theorem Thins.erase {s' : FrameReassembler} (h : Thins now s s') {found : Partial}
    (hfind : s'.pending.find id = some found) (hold : found.touched + partialLifetime < now) :
    found.wire.length ≤ s'.bytes ∧
      Thins now s { pending := s'.pending.erase id, bytes := s'.bytes - found.wire.length } := by
  have htotal := OrdMap.total_erase Partial.size s'.pending id
  have hlength := OrdMap.total_erase (fun _ => 1) s'.pending id
  rw [hfind, Option.elim] at htotal hlength
  rw [← OrdMap.length_eq_total, ← OrdMap.length_eq_total] at hlength
  have hbytes := h.bytes
  have hsize : found.size = found.wire.length := rfl
  have hle : found.wire.length ≤ s'.bytes := by omega
  refine ⟨hle, ?_, ?_, ?_, fun id' found' hfind' => ?_, fun id' found' hfind' hlive => ?_⟩
  · show s'.bytes - found.wire.length = (s'.pending.erase id).total Partial.size
    omega
  · have := h.bytes_le
    show s'.bytes - found.wire.length ≤ s.bytes
    omega
  · have := h.length_le
    show (s'.pending.erase id).entries.length ≤ _
    omega
  · rw [OrdMap.find_erase] at hfind'
    split at hfind'
    · cases hfind'
    · exact h.kept id' found' hfind'
  · have hkept := h.live id' found' hfind' hlive
    have hne : id' ≠ id := by
      rintro rfl
      cases hfind.symm.trans hkept
      exact hlive hold
    exact (OrdMap.find_erase_of_ne _ hne).trans hkept

/-- The loop gives up the frames that have expired, and no subtraction wraps around. -/
theorem thins_fold (l : List (Nat × Partial)) (hsorted : l.Pairwise fun a b => a.1 < b.1)
    {s' : FrameReassembler} (h : Thins now s s')
    (hmem : ∀ entry ∈ l, s'.pending.find entry.1 = some entry.2) :
    let expireOne := fun (s : FrameReassembler) (entry : Nat × Partial) =>
      if entry.2.touched + partialLifetime < now then
        ({ pending := s.pending.erase entry.1
           bytes := s.bytes - entry.2.wire.length } : FrameReassembler)
      else s
    l.foldlM (fun s entry =>
        if entry.2.touched + partialLifetime < now then
          (checkedSub s.bytes entry.2.wire.length).map fun bytes =>
            ({ pending := s.pending.erase entry.1, bytes := bytes } : FrameReassembler)
        else some s) s' = some (l.foldl expireOne s') ∧
      Thins now s (l.foldl expireOne s') := by
  intro expireOne
  induction l generalizing s' with
  | nil => exact ⟨rfl, h⟩
  | cons entry l ih =>
    rw [List.pairwise_cons] at hsorted
    rw [List.foldlM_cons, List.foldl_cons]
    have hfind := hmem entry List.mem_cons_self
    have htail : ∀ e ∈ l, s'.pending.find e.1 = some e.2 := fun e he =>
      hmem e (List.mem_cons_of_mem _ he)
    by_cases hold : entry.2.touched + partialLifetime < now
    · obtain ⟨hle, hthins⟩ := h.erase hfind hold
      have hone : expireOne s' entry =
          { pending := s'.pending.erase entry.1, bytes := s'.bytes - entry.2.wire.length } :=
        if_pos hold
      rw [if_pos hold, checkedSub_of_le hle, hone]
      refine ih hsorted.2 hthins fun e he => ?_
      exact (OrdMap.find_erase_of_ne _ (ne_of_gt (hsorted.1 e he))).trans (htail e he)
    · have hone : expireOne s' entry = s' := if_neg hold
      rw [if_neg hold, hone]
      exact ih hsorted.2 h htail

theorem expire_thins (now : Nat) (h : s.Bounded) :
    expireChecked now s = some (expire now s) ∧ Thins now s (expire now s) :=
  thins_fold s.pending.entries s.pending.sorted
    ⟨h.bytes, le_rfl, le_rfl, fun _ _ h => h, fun _ _ h _ => h⟩
    fun _ he => OrdMap.find_eq_some_iff.mpr he

theorem Bounded.of_thins {s' : FrameReassembler} (h : s.Bounded) (hthins : Thins now s s') :
    s'.Bounded :=
  ⟨hthins.bytes, hthins.bytes_le.trans h.bytes_le, hthins.length_le.trans h.length_le,
    fun id found hfind => h.pending id found (hthins.kept id found hfind)⟩

/-- The entry of a frame that is opened. -/
theorem open_made (hpos : 0 < total) (now : Nat) :
    ({ wire := List.replicate total 0
       received := List.replicate (Chunks.count fragmentPayloadSize total) false
       count := 0
       touched := now } : Partial).Open := by
  refine ⟨?_, ?_, ?_⟩
  · rw [List.length_replicate, List.length_replicate]
  · rw [List.count_replicate]
    rfl
  · rw [List.length_replicate, Chunks.lt_count_iff fragmentPayloadSize_pos, Nat.zero_mul]
    exact hpos

/-- **Opening a frame** stays within the limits.  The limits are tested before anything is added,
with the bytes of the new frame counted in. -/
theorem openPartial_bounded (id now : Nat) (h : s.Bounded) (hpos : 0 < total) :
    openPartialChecked id total now s = some (openPartial id total now s) ∧
      ((∃ e, openPartial id total now s = (.error e, s)) ∨
        ∃ found s', openPartial id total now s = (.ok found, s') ∧ s'.Bounded ∧
          s'.pending.find id = some found ∧
          (s' = s ∨ (found.wire.length = total ∧ found.count = 0))) := by
  refine ⟨?_, ?_⟩
  · rw [openPartialChecked, checkedSub_of_le h.bytes_le]
    split
    · rfl
    · rfl
  cases hfind : s.pending.find id with
  | some found =>
    exact Or.inr ⟨found, s, admit_of_find hfind, h, hfind, .inl rfl⟩
  | none =>
    by_cases hfull : s.pending.entries.length ≥ maxPending ∨ total > maxPendingBytes - s.bytes
    · refine Or.inl ⟨.lengthError "per-channel reassembly budget exceeded", ?_⟩
      rw [openPartial, Exec.bind_apply_ok (Exec.state_apply s), hfind]
      dsimp only
      rw [if_pos hfull]
      rfl
    · rw [not_or, Nat.not_le, Nat.not_lt] at hfull
      refine Or.inr ⟨_, _, admit_of_room hfind hfull.1 hfull.2, ?_, OrdMap.find_insert_self _ _ _,
        .inr ⟨List.length_replicate, rfl⟩⟩
      have htotal := OrdMap.total_insert Partial.size s.pending id
        { wire := List.replicate total 0
          received := List.replicate (Chunks.count fragmentPayloadSize total) false
          count := 0
          touched := now }
      have hlength := OrdMap.total_insert (fun _ => 1) s.pending id
        ({ wire := List.replicate total 0
           received := List.replicate (Chunks.count fragmentPayloadSize total) false
           count := 0
           touched := now } : Partial)
      rw [hfind, Option.elim] at htotal hlength
      rw [← OrdMap.length_eq_total, ← OrdMap.length_eq_total] at hlength
      have hbytes := h.bytes
      have hle := h.bytes_le
      refine ⟨?_, ?_, ?_, fun id' found' hfind' => ?_⟩
      · show s.bytes + total = _
        rw [Nat.add_zero] at htotal
        rw [htotal, hbytes, Partial.size, List.length_replicate]
      · show s.bytes + total ≤ maxPendingBytes
        omega
      · show (s.pending.insert id _).entries.length ≤ maxPending
        omega
      · rw [OrdMap.find_insert] at hfind'
        split at hfind'
        · cases hfind'
          exact open_made hpos now
        · exact h.pending id' found' hfind'

/-- What placing a payload does to the entry of its frame. -/
theorem place_open {found placed : Partial} {payload : Bytes} (h : found.Open)
    (hindex : offset / fragmentPayloadSize < found.received.length)
    (hrange : offset + payload.length ≤ found.wire.length)
    (hplace : place found offset payload = .ok placed) :
    placed.wire.length = found.wire.length ∧ placed.received.length = found.received.length ∧
      placed.count = placed.received.count true := by
  rw [place] at hplace
  split at hplace
  · split at hplace
    · cases hplace
    · cases hplace
      exact ⟨rfl, rfl, h.count⟩
  · rename_i hunset
    cases hplace
    refine ⟨?_, List.length_set, ?_⟩
    · show (Chunks.overwrite 0 found.wire offset payload).length = _
      rw [Chunks.length_overwrite]
      omega
    · show found.count + 1 = (found.received.set _ true).count true
      have hget : found.received[offset / fragmentPayloadSize] = false := by
        rw [List.getElem?_eq_getElem hindex, Option.some.injEq, Bool.not_eq_true] at hunset
        exact hunset
      rw [List.count_set hindex, hget, h.count]
      rfl

/-- **The end of a call** keeps the invariant.  A frame that is complete leaves with its bytes. -/
theorem put_bounded {found : Partial} {payload : Bytes} (now : Nat) (h : s.Bounded)
    (hfind : s.pending.find id = some found) (hoffset : offset < total)
    (hpayload : payload.length = min fragmentPayloadSize (total - offset)) :
    putChecked found id total offset now payload s =
        some (put found id total offset now payload s) ∧
      (put found id total offset now payload s).2.Bounded ∧
      ∀ e, (put found id total offset now payload s).1 = .error e →
        (put found id total offset now payload s).2 = s := by
  have hopen := h.pending id found hfind
  by_cases htotal : found.wire.length = total
  · have hindex : offset / fragmentPayloadSize < found.received.length := by
      rw [hopen.received, htotal]
      exact Chunks.div_lt_count fragmentPayloadSize_pos hoffset
    have hrange : offset + payload.length ≤ found.wire.length := by omega
    rw [putChecked, if_neg (not_not.mpr htotal), placeChecked, if_pos ⟨hindex, hrange⟩,
      Option.bind_some]
    cases hplace : place found offset payload with
    | error e =>
      have hput : put found id total offset now payload s = (.error e, s) := by
        have hcheck : Exec.check (fun _ : FrameReassembler => place found offset payload) s =
            (.error e, s) := by rw [Exec.check_apply, hplace]
        rw [put, if_neg (not_not.mpr htotal), Exec.bind_apply_error hcheck]
      rw [hput]
      exact ⟨rfl, h, fun _ _ => rfl⟩
    | ok placed =>
      obtain ⟨hwire, hreceived, hcount⟩ := place_open hopen hindex hrange hplace
      have hsize : ({ placed with touched := now } : Partial).size = found.size := hwire
      have hinsert := OrdMap.total_insert Partial.size s.pending id { placed with touched := now }
      have hlength := OrdMap.total_insert (fun _ => 1) s.pending id { placed with touched := now }
      rw [hfind, Option.elim, hsize] at hinsert
      rw [hfind, Option.elim, ← OrdMap.length_eq_total, ← OrdMap.length_eq_total] at hlength
      have hbytes := h.bytes
      have hle := h.bytes_le
      have hlen := h.length_le
      rw [put_eq htotal hplace]
      dsimp only
      -- the frame stays with the same bytes, or it leaves and its bytes with it
      by_cases hdone : placed.count ≠ placed.received.length
      · rw [if_pos hdone, if_pos hdone]
        refine ⟨rfl, ⟨?_, hle, ?_, fun id' found' hfind' => ?_⟩, by rintro _ ⟨⟩⟩
        · show s.bytes = (s.pending.insert id _).total Partial.size
          omega
        · show (s.pending.insert id _).entries.length ≤ maxPending
          omega
        · rw [OrdMap.find_insert] at hfind'
          split at hfind'
          · cases hfind'
            refine ⟨?_, hcount, lt_of_le_of_ne (hcount ▸ List.count_le_length) hdone⟩
            show placed.received.length = Chunks.count fragmentPayloadSize placed.wire.length
            rw [hreceived, hwire, hopen.received]
          · exact h.pending id' found' hfind'
      · have herase := OrdMap.total_erase Partial.size
          (s.pending.insert id { placed with touched := now }) id
        have herase' := OrdMap.total_erase (fun _ => 1)
          (s.pending.insert id { placed with touched := now }) id
        rw [OrdMap.find_insert_self, Option.elim, hsize] at herase
        rw [OrdMap.find_insert_self, Option.elim, ← OrdMap.length_eq_total,
          ← OrdMap.length_eq_total] at herase'
        have hfound : found.size = total := htotal
        have hsub : total ≤ s.bytes := by omega
        rw [if_neg hdone, if_neg hdone, checkedSub_of_le hsub]
        refine ⟨rfl, ⟨?_, ?_, ?_, fun id' found' hfind' => ?_⟩, by rintro _ ⟨⟩⟩
        · show s.bytes - total = ((s.pending.insert id _).erase id).total Partial.size
          omega
        · show s.bytes - total ≤ maxPendingBytes
          omega
        · show ((s.pending.insert id _).erase id).entries.length ≤ maxPending
          omega
        · rw [OrdMap.find_erase] at hfind'
          split at hfind'
          · cases hfind'
          · rename_i hne
            rw [OrdMap.find_insert_of_ne _ _ hne] at hfind'
            exact h.pending id' found' hfind'
  · rw [putChecked, put, if_pos htotal, if_pos htotal]
    exact ⟨rfl, h, fun _ _ => rfl⟩

/-- The first fragment of a frame is never refused. -/
theorem put_made {found : Partial} {payload : Bytes} (hopen : found.Open) (hcount : found.count = 0)
    (htotal : found.wire.length = total) :
    ∃ a, (put found id total offset now payload s).1 = .ok a := by
  have hunset : ¬ found.received[offset / fragmentPayloadSize]? = some true := by
    intro hset
    have hpos : 0 < found.received.count true :=
      List.count_pos_iff.mpr (List.mem_of_getElem? hset)
    have := hopen.count
    omega
  have hplace : place found offset payload = .ok
      { found with
        wire := Chunks.overwrite 0 found.wire offset payload
        received := found.received.set (offset / fragmentPayloadSize) true
        count := found.count + 1 } := if_neg hunset
  rw [put_eq htotal hplace]
  split
  · exact ⟨none, rfl⟩
  · exact ⟨_, rfl⟩

/-- The frames that are pending and live stay as they are, and there are no others. -/
def Untouched (now : Nat) (s s' : FrameReassembler) : Prop :=
  (∀ id found, s.pending.find id = some found → ¬ found.touched + partialLifetime < now →
    s'.pending.find id = some found) ∧
  ∀ id found, s'.pending.find id = some found → s.pending.find id = some found

/-- The fragment has no sound header. -/
abbrev Malformed (fragment : Bytes) : Prop :=
  fragment.length ≤ fragmentHeader ∨ fragment.length > fragmentHeader + fragmentPayloadSize ∨
    fragment.take 4 ≠ fragmentMagic

/-- What the header says cannot be. -/
abbrev Misplaced (fragment : Bytes) : Prop :=
  fragmentId fragment = 0 ∨ fragmentTotal fragment = 0 ∨
    fragmentTotal fragment > Wire.maxFrameSize ∨
    fragmentOffset fragment ≥ fragmentTotal fragment ∨
    fragmentOffset fragment % fragmentPayloadSize ≠ 0 ∨
    fragment.length - fragmentHeader ≠
      min fragmentPayloadSize (fragmentTotal fragment - fragmentOffset fragment)

theorem accept_of_malformed {fragment : Bytes} (h : Malformed fragment) :
    accept fragment now s = (.error (.invalidArgument "invalid DataChannel fragment"), s) := by
  rw [accept, if_pos h]
  rfl

theorem accept_of_misplaced {fragment : Bytes} (h : ¬ Malformed fragment)
    (hrange : Misplaced fragment) :
    accept fragment now s = (.error (.invalidArgument "invalid fragment range"), s) := by
  rw [accept, if_neg h, if_pos hrange]
  rfl

theorem accept_of_sound {fragment : Bytes} (h : ¬ Malformed fragment)
    (hrange : ¬ Misplaced fragment) :
    accept fragment now s = (do
      let found ← openPartial (fragmentId fragment) (fragmentTotal fragment) now
      put found (fragmentId fragment) (fragmentTotal fragment) (fragmentOffset fragment) now
        (fragment.drop fragmentHeader)) (expire now s) := by
  rw [accept, if_neg h, if_neg hrange]
  rfl

/-- **One call**: the invariant stays, no check fails, and a refusal touches nothing.  In the order
of the function: what has expired is dropped, a frame is found or opened, and the fragment is put
in. -/
theorem bounded_accept (h : s.Bounded) (fragment : Bytes) (now : Nat) :
    acceptChecked fragment now s = some (accept fragment now s) ∧
      (accept fragment now s).2.Bounded ∧
      ∀ e, (accept fragment now s).1 = .error e → Untouched now s (accept fragment now s).2 := by
  have hsame : Untouched now s s := ⟨fun _ _ h _ => h, fun _ _ h => h⟩
  by_cases hheader : Malformed fragment
  · rw [acceptChecked, if_pos hheader, accept_of_malformed hheader]
    exact ⟨rfl, h, fun _ _ => hsame⟩
  have hle : fragmentHeader ≤ fragment.length := by
    rw [Malformed, not_or, Nat.not_le] at hheader
    exact hheader.1.le
  by_cases hrange : fragmentId fragment = 0 ∨ fragmentTotal fragment = 0 ∨
      fragmentTotal fragment > Wire.maxFrameSize ∨
      fragmentOffset fragment ≥ fragmentTotal fragment ∨
      fragmentOffset fragment % fragmentPayloadSize ≠ 0
  · have hmisplaced : Misplaced fragment := by
      rw [Misplaced]
      tauto
    rw [acceptChecked, if_neg hheader, if_pos hrange, accept_of_misplaced hheader hmisplaced]
    exact ⟨rfl, h, fun _ _ => hsame⟩
  have hsound := hrange
  simp only [not_or, not_le, ge_iff_le] at hsound
  obtain ⟨-, hpos, -, hoffset, -⟩ := hsound
  rw [acceptChecked, if_neg hheader, if_neg hrange, checkedSub_of_le hle,
    checkedSub_of_le hoffset.le]
  simp only [Option.bind_eq_bind, Option.bind_some]
  by_cases hlength : fragment.length - fragmentHeader ≠
      min fragmentPayloadSize (fragmentTotal fragment - fragmentOffset fragment)
  · have hmisplaced : Misplaced fragment := by
      rw [Misplaced]
      tauto
    rw [if_pos hlength, accept_of_misplaced hheader hmisplaced]
    exact ⟨rfl, h, fun _ _ => hsame⟩
  have hplaced : ¬ Misplaced fragment := by
    rw [Misplaced]
    tauto
  rw [not_not] at hlength
  -- the fragment is in order; from here on the state is involved
  obtain ⟨hexpire, hthins⟩ := expire_thins now h
  have hbounded := h.of_thins hthins
  obtain ⟨hopen, hopened⟩ := openPartial_bounded (fragmentId fragment) now hbounded
    (Nat.pos_of_ne_zero hpos)
  rw [if_neg (not_not.mpr hlength), accept_of_sound hheader hplaced, hexpire, Option.bind_some,
    hopen, Option.bind_some]
  have hlive : Untouched now s (expire now s) := ⟨hthins.live, hthins.kept⟩
  rcases hopened with ⟨e, heq⟩ | ⟨found, s', heq, hbounded', hfind, hmade⟩
  · rw [heq, Exec.bind_apply_error heq]
    exact ⟨rfl, hbounded, fun _ _ => hlive⟩
  · have hpayload : (fragment.drop fragmentHeader).length =
        min fragmentPayloadSize (fragmentTotal fragment - fragmentOffset fragment) := by
      rw [List.length_drop, hlength]
    obtain ⟨hput, hafter, herror⟩ := put_bounded now hbounded' hfind hoffset hpayload
    rw [heq, Exec.bind_apply_ok heq]
    refine ⟨hput, hafter, fun e he => ?_⟩
    rw [herror e he]
    rcases hmade with rfl | ⟨htotal, hcount⟩
    · exact hlive
    · obtain ⟨a, ha⟩ := put_made (hbounded'.pending _ _ hfind) hcount htotal
      exact absurd (ha.symm.trans he) nofun

end FrameReassembler

/-- **The budget of a reassembler**: whatever sequence of byte strings has been given to `Accept`,
and whatever the clock said, the counter is the sum of the pending buffers and at most 32 MiB, at
most 32 frames are pending, the counter of each is the number of set bits and short of the number of
its fragments; no subtraction of the next call wraps around and no index is out of range; and if
that call is refused, every frame that is pending and has not expired stays as it is. -/
theorem reassembler_bounded (calls : List (Bytes × Nat)) (fragment : Bytes) (now : Nat) :
    let s : FrameReassembler :=
      Run.run (fun s (call : Bytes × Nat) => (FrameReassembler.accept call.1 call.2 s).2) {} calls
    s.Bounded ∧
      FrameReassembler.acceptChecked fragment now s =
        some (FrameReassembler.accept fragment now s) ∧
      ∀ e, (FrameReassembler.accept fragment now s).1 = .error e →
        FrameReassembler.Untouched now s (FrameReassembler.accept fragment now s).2 := by
  intro s
  have hs : s.Bounded := by
    refine Run.run_invariant_all (fun t call ht => ?_) calls FrameReassembler.Bounded.empty
    exact (FrameReassembler.bounded_accept ht call.1 call.2).2.1
  obtain ⟨hchecked, -, hrefused⟩ := FrameReassembler.bounded_accept hs fragment now
  exact ⟨hs, hchecked, hrefused⟩

end Transport

end VeritasSync
