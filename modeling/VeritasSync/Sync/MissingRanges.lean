import VeritasSync.Common.Wire
import VeritasSync.Sync.Delivery

/-!
# The missing chunks of a transfer, in machine words

`MissingChunkRanges` sorts the completed indices, drops the duplicates and walks over the gaps with
a 64-bit cursor; the length of a gap has to fit into the 32 bits of a range.  What it returns goes
to a peer through `EncodeFileRequest`, which makes checks of its own on the order of the ranges.

The nodes of this development read the indices from a table that has them sorted, and count in
natural numbers: that is `missingRanges`, and `Word.natRanges_missingLoop` says that the loop over
machine words does the same.

## What is here

* `Word.missingChunkRanges` — the function as it is written.
* `missingRanges_eq_ok`, `missingRanges_eq_error` — what the loop returns, and when it throws.
* `missing_chunk_ranges` — **what the function returns for every list of indices**, and that the
  codec of a request takes it.

Nothing is assumed about the indices.  The table has them sorted and without duplicates, but the
function sorts them again, and what it does for a list that is in no order, has duplicates, or has
indices beyond the end of the file is the same as for the list in order.  The one way to fail is a
gap that is too long for the 32 bits of a range, in a file of more than a petabyte.
-/

set_option autoImplicit false

namespace VeritasSync

/-! ## The loop over natural numbers -/

/-- What the loop returns: the missing numbers in ranges that are not empty and do not touch. -/
theorem missingRanges_eq_ok {total cursor : Nat} {completed : List Nat} {ranges : List ChunkRange}
    (hsorted : completed.Pairwise (· < ·)) (hbounds : ∀ i ∈ completed, cursor ≤ i ∧ i < total)
    (h : missingRanges total cursor completed = .ok ranges) :
    expand ranges = Chunks.missing total cursor completed ∧
      (∀ range ∈ ranges, 0 < range.chunkCount ∧ cursor ≤ range.firstChunk ∧
        range.firstChunk + range.chunkCount ≤ total) ∧
      ranges.Pairwise fun a b => a.firstChunk + a.chunkCount < b.firstChunk := by
  induction completed generalizing cursor ranges with
  | nil =>
    rw [missingRanges] at h
    rw [Chunks.missing_nil]
    split at h
    · rename_i hlt
      split at h
      · cases h
      · cases h
        refine ⟨by simp [expand], fun range hrange => ?_, List.pairwise_singleton _ _⟩
        rw [List.mem_singleton.mp hrange]
        dsimp only
        omega
    · rename_i hge
      cases h
      rw [Nat.sub_eq_zero_of_le (not_lt.mp hge)]
      exact ⟨rfl, fun _ hmem => absurd hmem List.not_mem_nil, .nil⟩
  | cons chunk rest ih =>
    obtain ⟨hhead, htail⟩ := List.pairwise_cons.mp hsorted
    obtain ⟨hcursor, htotal⟩ := hbounds chunk List.mem_cons_self
    rw [missingRanges] at h
    split at h
    · cases h
    obtain ⟨missing, hmissing, hrest⟩ := ok_of_bind h
    cases hrest
    obtain ⟨hexpand, hinside, hseparate⟩ := ih htail
      (fun i hi => ⟨hhead i hi, (hbounds i (List.mem_cons_of_mem _ hi)).2⟩) hmissing
    have hlater : ∀ range ∈ missing, 0 < range.chunkCount ∧ cursor ≤ range.firstChunk ∧
        range.firstChunk + range.chunkCount ≤ total := fun range hrange => by
      obtain ⟨hpos, hfirst, hend⟩ := hinside range hrange
      exact ⟨hpos, by omega, hend⟩
    rw [Chunks.missing_cons hcursor htotal hhead, ← hexpand]
    -- the gap before the chunk is the first range; the next ones begin behind the chunk
    by_cases hgap : chunk > cursor
    · rw [if_pos hgap]
      refine ⟨by simp [expand], List.forall_mem_cons.mpr ⟨?_, hlater⟩,
        List.pairwise_cons.mpr ⟨fun range hrange => ?_, hseparate⟩⟩
      · dsimp only
        omega
      · have hfirst := (hinside range hrange).2.1
        dsimp only
        omega
    · rw [if_neg hgap, Nat.sub_eq_zero_of_le (not_lt.mp hgap)]
      exact ⟨rfl, hlater, hseparate⟩

/-- When the loop throws: some gap is longer than a range can say. -/
theorem missingRanges_eq_error {total cursor : Nat} {completed : List Nat} {e : Error}
    (hsorted : completed.Pairwise (· < ·)) (hbounds : ∀ i ∈ completed, cursor ≤ i ∧ i < total)
    (h : missingRanges total cursor completed = .error e) :
    e = .invalidArgument "missing range is too large" ∧
      ∃ first, cursor ≤ first ∧
        ∀ i < 2 ^ 32, first + i < total ∧ first + i ∉ completed := by
  induction completed generalizing cursor with
  | nil =>
    rw [missingRanges] at h
    split at h
    · split at h
      · rename_i hlong
        cases h
        exact ⟨rfl, cursor, le_rfl, fun i hi => ⟨by omega, List.not_mem_nil⟩⟩
      · cases h
    · cases h
  | cons chunk rest ih =>
    obtain ⟨hhead, htail⟩ := List.pairwise_cons.mp hsorted
    have hlater : ∀ i ∈ rest, chunk + 1 ≤ i ∧ i < total := fun i hi =>
      ⟨hhead i hi, (hbounds i (List.mem_cons_of_mem _ hi)).2⟩
    rw [missingRanges] at h
    split at h
    · rename_i hlong
      cases h
      refine ⟨rfl, cursor, le_rfl, fun i hi => ⟨?_, fun hmem => ?_⟩⟩
      · have htotal := (hbounds chunk List.mem_cons_self).2
        omega
      · rcases List.mem_cons.mp hmem with heq | hmem
        · omega
        · have := hhead _ hmem
          omega
    · cases hmissing : missingRanges total (chunk + 1) rest with
      | ok missing =>
        rw [hmissing] at h
        cases h
      | error e' =>
        rw [hmissing] at h
        cases h
        obtain ⟨rfl, first, hcursor, hfirst⟩ := ih htail hlater hmissing
        have hchunk := (hbounds chunk List.mem_cons_self).1
        refine ⟨rfl, first, by omega, fun i hi => ⟨(hfirst i hi).1, fun hmem => ?_⟩⟩
        rcases List.mem_cons.mp hmem with heq | hmem
        · omega
        · exact (hfirst i hi).2 hmem

namespace Word

/-! ## The function -/

/-- `std::unique`: of equal neighbours the first is kept. -/
def unique : List UInt64 → List UInt64
  | [] => []
  | [chunk] => [chunk]
  | chunk :: next :: rest =>
    if chunk = next then unique (next :: rest) else chunk :: unique (next :: rest)

/-- The completed indices, after `sort` and `unique`. -/
def sortUnique (completed : List UInt64) : List UInt64 :=
  unique (completed.insertionSort fun a b => a ≤ b)

/-- Where a gap becomes a range. -/
def gapRange (cursor count : UInt64) : Except Error Wire.ChunkRange :=
  if count > 2 ^ 32 - 1 then .error (.invalidArgument "missing range is too large")
  else .ok ⟨cursor, count.toUInt32⟩

/-- The loop over the sorted indices, from `cursor` on. -/
def missingLoop (totalChunks : UInt64) (missing : List Wire.ChunkRange) (cursor : UInt64) :
    List UInt64 → Except Error (List Wire.ChunkRange)
  | [] =>
    if cursor < totalChunks then
      (gapRange cursor (totalChunks - cursor)).map fun range => missing ++ [range]
    else .ok missing
  | chunk :: rest =>
    if chunk > cursor then do
      let range ← gapRange cursor (chunk - cursor)
      missingLoop totalChunks (missing ++ [range]) (chunk + 1) rest
    else missingLoop totalChunks missing (chunk + 1) rest

/-- `MissingChunkRanges`: the gaps between the completed chunks, as ranges of 32 bits. -/
def missingChunkRanges (totalChunks : UInt64) (completedChunks : List UInt64) :
    Except Error (List Wire.ChunkRange) :=
  if totalChunks = 0 then .error (.invalidArgument "transfer must contain chunks")
  else
    let completed := sortUnique completedChunks
    if completed.getLast?.any fun chunk => totalChunks ≤ chunk then
      .error (.invalidArgument "completed chunk exceeds transfer size")
    else missingLoop totalChunks [] 0 completed

/-! ## Sorting -/

theorem mem_unique {chunk : UInt64} : ∀ {l : List UInt64}, chunk ∈ unique l ↔ chunk ∈ l
  | [] => Iff.rfl
  | [_] => Iff.rfl
  | first :: next :: rest => by
    have ih : chunk ∈ unique (next :: rest) ↔ chunk ∈ next :: rest := mem_unique
    rw [unique]
    split
    · rename_i heq
      rw [ih, List.mem_cons (a := chunk) (b := first), heq]
      exact ⟨.inr, fun h => h.elim (fun h => h ▸ List.mem_cons_self) id⟩
    · rw [List.mem_cons, List.mem_cons, ih]

theorem pairwise_unique : ∀ {l : List UInt64}, l.Pairwise (· ≤ ·) → (unique l).Pairwise (· < ·)
  | [], _ => .nil
  | [_], _ => List.pairwise_singleton _ _
  | first :: next :: rest, h => by
    obtain ⟨hfirst, hrest⟩ := List.pairwise_cons.mp h
    have ih := pairwise_unique hrest
    rw [unique]
    split
    · exact ih
    · rename_i hne
      refine List.pairwise_cons.mpr ⟨fun chunk hchunk => ?_, ih⟩
      have hle := hfirst next List.mem_cons_self
      have hnext : next ≤ chunk := by
        rcases List.mem_cons.mp (mem_unique.mp hchunk) with rfl | hmem
        · exact UInt64.le_refl _
        · exact (List.pairwise_cons.mp hrest).1 chunk hmem
      rw [UInt64.lt_iff_toNat_lt]
      rw [UInt64.le_iff_toNat_le] at hle hnext
      have hdiffer : first.toNat ≠ next.toNat := fun heq => hne (UInt64.toNat_inj.mp heq)
      omega

theorem pairwise_sortUnique (completed : List UInt64) :
    (sortUnique completed).Pairwise (· < ·) := by
  have : Std.Total fun a b : UInt64 => a ≤ b := ⟨UInt64.le_total⟩
  have : IsTrans UInt64 fun a b => a ≤ b := ⟨fun _ _ _ => UInt64.le_trans⟩
  exact pairwise_unique (List.pairwise_insertionSort _ _)

theorem mem_sortUnique {completed : List UInt64} {chunk : UInt64} :
    chunk ∈ sortUnique completed ↔ chunk ∈ completed := by
  rw [sortUnique, mem_unique, List.mem_insertionSort]

/-! ## The loop over machine words -/

/-- A range with its numbers as naturals. -/
def natRange (range : Wire.ChunkRange) : ChunkRange :=
  ⟨range.firstChunk.toNat, range.chunkCount.toNat⟩

theorem natRange_gapRange (cursor count : UInt64) :
    (gapRange cursor count).map natRange =
      if count.toNat > 2 ^ 32 - 1 then .error (.invalidArgument "missing range is too large")
      else .ok ⟨cursor.toNat, count.toNat⟩ := by
  have hmax : (2 ^ 32 - 1 : UInt64).toNat = 2 ^ 32 - 1 := by decide
  have hiff : count > 2 ^ 32 - 1 ↔ count.toNat > 2 ^ 32 - 1 := by
    rw [gt_iff_lt, UInt64.lt_iff_toNat_lt, hmax]
  rw [gapRange]
  by_cases hlong : count > 2 ^ 32 - 1
  · rw [if_pos hlong, if_pos (hiff.mp hlong)]
    rfl
  · have hshort := mt hiff.mpr hlong
    rw [if_neg hlong, if_neg hshort]
    have hexact : count.toUInt32.toNat = count.toNat := by
      rw [UInt64.toNat_toUInt32]
      omega
    simp [Except.map, natRange, hexact]

/-- A difference of machine words that does not wrap. -/
theorem toNat_sub_of_lt {a b : UInt64} (h : b < a) : (a - b).toNat = a.toNat - b.toNat :=
  UInt64.toNat_sub_of_le a b (UInt64.le_of_lt h)

/-- The cursor does not wrap behind an index below the total. -/
theorem toNat_add_one {chunk totalChunks : UInt64} (h : chunk < totalChunks) :
    (chunk + 1).toNat = chunk.toNat + 1 := by
  have htotal := totalChunks.toNat_lt
  rw [UInt64.lt_iff_toNat_lt] at h
  rw [UInt64.toNat_add, show (1 : UInt64).toNat = 1 from rfl]
  omega

/-- **The loop over machine words is the loop over naturals.**  Sums of indices below the number of
chunks do not wrap, and after this lemma no machine word is left. -/
theorem natRanges_missingLoop {totalChunks cursor : UInt64} {completed : List UInt64}
    (missing : List Wire.ChunkRange) (hbounds : ∀ chunk ∈ completed, chunk < totalChunks) :
    (missingLoop totalChunks missing cursor completed).map (List.map natRange) =
      (missingRanges totalChunks.toNat cursor.toNat (completed.map UInt64.toNat)).map
        (missing.map natRange ++ ·) := by
  induction completed generalizing cursor missing with
  | nil =>
    rw [missingLoop, List.map_nil, missingRanges]
    by_cases hlt : cursor < totalChunks
    · have hgap := natRange_gapRange cursor (totalChunks - cursor)
      rw [toNat_sub_of_lt hlt] at hgap
      rw [if_pos hlt, if_pos (UInt64.lt_iff_toNat_lt.mp hlt)]
      cases hrange : gapRange cursor (totalChunks - cursor) with
      | error e =>
        rw [hrange] at hgap
        split at hgap
        · rename_i hlong
          rw [if_pos hlong]
          cases hgap
          rfl
        · cases hgap
      | ok range =>
        rw [hrange] at hgap
        split at hgap
        · cases hgap
        · rename_i hshort
          rw [if_neg hshort]
          have hnat : natRange range = _ := Except.ok.inj hgap
          simp [Except.map, hnat]
    · rw [if_neg hlt, if_neg (mt UInt64.lt_iff_toNat_lt.mpr hlt)]
      simp [Except.map]
  | cons chunk rest ih =>
    have hchunk := hbounds chunk List.mem_cons_self
    have hlater := fun i hi => hbounds i (List.mem_cons_of_mem chunk hi)
    -- an index below the number of chunks can be increased without wrapping
    have hnext := toNat_add_one hchunk
    rw [missingLoop, List.map_cons, missingRanges]
    by_cases hgap : chunk > cursor
    · have hgap' : chunk.toNat > cursor.toNat := UInt64.lt_iff_toNat_lt.mp hgap
      have hrange := natRange_gapRange cursor (chunk - cursor)
      rw [toNat_sub_of_lt hgap] at hrange
      rw [if_pos hgap]
      simp only [hgap', true_and, if_true]
      cases hword : gapRange cursor (chunk - cursor) with
      | error e =>
        rw [hword] at hrange
        split at hrange
        · rename_i hlong
          rw [if_pos hlong]
          cases hrange
          rfl
        · cases hrange
      | ok range =>
        rw [hword] at hrange
        split at hrange
        · cases hrange
        · rename_i hshort
          rw [if_neg hshort]
          have hnat : natRange range = _ := Except.ok.inj hrange
          have hrest := @ih (chunk + 1) (missing ++ [range]) hlater
          rw [hnext] at hrest
          refine hrest.trans ?_
          cases missingRanges totalChunks.toNat (chunk.toNat + 1) (rest.map UInt64.toNat) <;>
            simp [Except.map, bind, Except.bind, pure, Except.pure, hnat]
    · have hgap' : ¬ chunk.toNat > cursor.toNat := mt UInt64.lt_iff_toNat_lt.mpr hgap
      rw [if_neg hgap]
      simp only [hgap', false_and, if_false]
      have hrest := @ih (chunk + 1) missing hlater
      rw [hnext] at hrest
      refine hrest.trans ?_
      cases missingRanges totalChunks.toNat (chunk.toNat + 1) (rest.map UInt64.toNat) <;> rfl

/-! ## What the function returns -/

/-- The ranges are not empty, ascend without touching, end without wrapping inside the transfer,
and name the missing chunks. -/
structure Missing (totalChunks : UInt64) (completed : List UInt64) (ranges : List Wire.ChunkRange) :
    Prop where
  pos : ∀ range ∈ ranges, 0 < range.chunkCount.toNat
  separate : ranges.Pairwise fun a b =>
    a.firstChunk.toNat + a.chunkCount.toNat < b.firstChunk.toNat
  stop : ∀ range ∈ ranges,
    range.stop.toNat = range.firstChunk.toNat + range.chunkCount.toNat ∧
      range.firstChunk.toNat + range.chunkCount.toNat ≤ totalChunks.toNat
  expand : expand (ranges.map natRange) =
    (List.range totalChunks.toNat).filter fun i => i ∉ completed.map UInt64.toNat

/-- The end of a range that lies inside a transfer. -/
theorem toNat_stop {range : Wire.ChunkRange} {totalChunks : UInt64}
    (h : range.firstChunk.toNat + range.chunkCount.toNat ≤ totalChunks.toNat) :
    range.stop.toNat = range.firstChunk.toNat + range.chunkCount.toNat := by
  have hlt := totalChunks.toNat_lt
  rw [Wire.ChunkRange.stop, UInt64.toNat_add, UInt32.toNat_toUInt64]
  omega

/-- The missing numbers do not depend on the order of the completed ones. -/
theorem missing_sortUnique (totalChunks : UInt64) (completed : List UInt64) :
    Chunks.missing totalChunks.toNat 0 ((sortUnique completed).map UInt64.toNat) =
      (List.range totalChunks.toNat).filter fun i => i ∉ completed.map UInt64.toNat := by
  rw [Chunks.missing, Nat.sub_zero, ← List.range_eq_range']
  refine List.filter_congr fun i _ => ?_
  simp only [List.mem_map, mem_sortUnique]

theorem pairwise_map_toNat {completed : List UInt64} (h : completed.Pairwise (· < ·)) :
    (completed.map UInt64.toNat).Pairwise (· < ·) :=
  List.pairwise_map.mpr (h.imp UInt64.lt_iff_toNat_lt.mp)

/-- Sorted, the completed indices fit the loop. -/
theorem bounds_sortUnique {totalChunks : UInt64} {completed : List UInt64}
    (hbelow : ∀ chunk ∈ completed, chunk < totalChunks) :
    ∀ i ∈ (sortUnique completed).map UInt64.toNat, 0 ≤ i ∧ i < totalChunks.toNat := by
  intro i hi
  obtain ⟨chunk, hchunk, rfl⟩ := List.mem_map.mp hi
  exact ⟨Nat.zero_le _, UInt64.lt_iff_toNat_lt.mp (hbelow chunk (mem_sortUnique.mp hchunk))⟩

/-- The checks before the loop pass, so the function is the loop over naturals. -/
theorem natRanges_missingChunkRanges {totalChunks : UInt64} {completed : List UInt64}
    (htotal : 1 ≤ totalChunks) (hbelow : ∀ chunk ∈ completed, chunk < totalChunks) :
    (missingChunkRanges totalChunks completed).map (List.map natRange) =
      missingRanges totalChunks.toNat 0 ((sortUnique completed).map UInt64.toNat) := by
  have hzero : totalChunks ≠ 0 := by
    rintro rfl
    exact absurd htotal (by decide)
  have hlast : ¬ ((sortUnique completed).getLast?.any fun chunk => totalChunks ≤ chunk) = true := by
    rw [Option.any_eq_true]
    rintro ⟨chunk, hchunk, hle⟩
    have hmem := mem_sortUnique.mp (List.mem_of_getLast? hchunk)
    exact absurd (hbelow chunk hmem) (UInt64.not_lt.mpr (of_decide_eq_true hle))
  have hloop := @natRanges_missingLoop totalChunks 0 _ [] fun chunk hchunk =>
    hbelow chunk (mem_sortUnique.mp hchunk)
  rw [missingChunkRanges, if_neg hzero]
  dsimp only
  rw [if_neg hlast, hloop, show (0 : UInt64).toNat = 0 from rfl]
  cases missingRanges totalChunks.toNat 0 ((sortUnique completed).map UInt64.toNat) <;> rfl

theorem missing_of_eq_ok {totalChunks : UInt64} {completed : List UInt64}
    {ranges : List Wire.ChunkRange} (htotal : 1 ≤ totalChunks)
    (hbelow : ∀ chunk ∈ completed, chunk < totalChunks)
    (h : missingChunkRanges totalChunks completed = .ok ranges) :
    Missing totalChunks completed ranges := by
  have hnat := natRanges_missingChunkRanges htotal hbelow
  rw [h] at hnat
  obtain ⟨hexpand, hinside, hseparate⟩ := missingRanges_eq_ok
    (pairwise_map_toNat (pairwise_sortUnique completed)) (bounds_sortUnique hbelow) hnat.symm
  have hranges := fun range hrange => hinside (natRange range) (List.mem_map_of_mem hrange)
  exact ⟨fun range hrange => (hranges range hrange).1, List.pairwise_map.mp hseparate,
    fun range hrange => ⟨toNat_stop (hranges range hrange).2.2, (hranges range hrange).2.2⟩,
    hexpand.trans (missing_sortUnique totalChunks completed)⟩

/-! ## The request

A range that is non-empty, in order and not too long is what the codec asks for, so a request that
the function has built can be refused by `EncodeFileRequest` for the number of its ranges only:
none, or too many. -/

/-- Ranges that ascend without wrapping pass the checks of the codec. -/
theorem validRanges_of_pairwise {previousEnd : UInt64} {ranges : List Wire.ChunkRange}
    (hpos : ∀ range ∈ ranges, 0 < range.chunkCount.toNat)
    (hstop : ∀ range ∈ ranges,
      range.stop.toNat = range.firstChunk.toNat + range.chunkCount.toNat)
    (hprevious : ∀ range ∈ ranges, previousEnd.toNat ≤ range.firstChunk.toNat)
    (hseparate : ranges.Pairwise fun a b =>
      a.firstChunk.toNat + a.chunkCount.toNat < b.firstChunk.toNat) :
    Wire.validRanges previousEnd ranges := by
  induction ranges generalizing previousEnd with
  | nil => exact trivial
  | cons range rest ih =>
    obtain ⟨hhead, htail⟩ := List.pairwise_cons.mp hseparate
    obtain ⟨hpos, hposRest⟩ := List.forall_mem_cons.mp hpos
    obtain ⟨hstop, hstopRest⟩ := List.forall_mem_cons.mp hstop
    have hfirst := hprevious range List.mem_cons_self
    have hlt := range.stop.toNat_lt
    refine ⟨?_, ih hposRest hstopRest (fun next hnext => ?_) htail⟩
    · rintro (hzero | hearly | hlong)
      · rw [hzero] at hpos
        exact absurd hpos (by decide)
      · rw [UInt64.lt_iff_toNat_lt] at hearly
        omega
      · omega
    · have := hhead next hnext
      omega

theorem Missing.validRanges {totalChunks : UInt64} {completed : List UInt64}
    {ranges : List Wire.ChunkRange} (h : Missing totalChunks completed ranges) :
    Wire.validRanges 0 ranges :=
  validRanges_of_pairwise h.pos (fun range hrange => (h.stop range hrange).1)
    (fun _ _ => Nat.zero_le _) h.separate

end Word

/-- **`MissingChunkRanges`, for every list of indices below the total**: the ranges it returns are
the missing chunks, the codec of a request takes them, and it throws only where a gap does not fit
into a range. -/
theorem missing_chunk_ranges (totalChunks : UInt64) (completed : List UInt64)
    (htotal : 1 ≤ totalChunks) (hbelow : ∀ chunk ∈ completed, chunk < totalChunks) :
    (∀ chunk ∈ completed, (chunk + 1).toNat = chunk.toNat + 1) ∧
      (∀ ranges, Word.missingChunkRanges totalChunks completed = .ok ranges →
        Word.Missing totalChunks completed ranges ∧
          (ranges ≠ [] → ranges.length ≤ 1000000 → ∀ transferId fileHash, ∃ payload,
            Wire.encodeFileRequest ⟨transferId, fileHash, ranges⟩ = .ok payload ∧
              Wire.decodeFileRequest payload = .ok ⟨transferId, fileHash, ranges⟩)) ∧
      ∀ e, Word.missingChunkRanges totalChunks completed = .error e →
        ∃ first, ∀ i < 2 ^ 32,
          first + i < totalChunks.toNat ∧ first + i ∉ completed.map UInt64.toNat := by
  refine ⟨fun chunk hchunk => Word.toNat_add_one (hbelow chunk hchunk), fun ranges h => ?_,
    fun e h => ?_⟩
  · have hmissing := Word.missing_of_eq_ok htotal hbelow h
    refine ⟨hmissing, fun hne hcount transferId fileHash => ?_⟩
    have hadmits : Wire.admitsFileRequest ⟨transferId, fileHash, ranges⟩ :=
      ⟨⟨hne, hcount⟩, hmissing.validRanges⟩
    exact ⟨_, (Wire.encodeFileRequest_eq_ok_iff _ _).mpr ⟨hadmits, rfl⟩,
      (Wire.decodeFileRequest_eq_ok_iff _ _).mpr ⟨hadmits, rfl⟩⟩
  · have hnat := Word.natRanges_missingChunkRanges htotal hbelow
    rw [h] at hnat
    obtain ⟨-, first, -, hfirst⟩ := missingRanges_eq_error
      (Word.pairwise_map_toNat (Word.pairwise_sortUnique completed))
      (Word.bounds_sortUnique hbelow) hnat.symm
    refine ⟨first, fun i hi => ⟨(hfirst i hi).1, fun hmem => (hfirst i hi).2 ?_⟩⟩
    obtain ⟨chunk, hchunk, heq⟩ := List.mem_map.mp hmem
    exact List.mem_map.mpr ⟨chunk, Word.mem_sortUnique.mpr hchunk, heq⟩

/-- Indices out of order and twice: gaps at the start, in the middle and at the end. -/
theorem missing_chunk_ranges_unsorted :
    Word.missingChunkRanges 7 [4, 1, 4, 3] = .ok [⟨0, 1⟩, ⟨2, 1⟩, ⟨5, 2⟩] ∧
      Word.Missing 7 [4, 1, 4, 3] [⟨0, 1⟩, ⟨2, 1⟩, ⟨5, 2⟩] := by
  have hrun : Word.missingChunkRanges 7 [4, 1, 4, 3] = .ok [⟨0, 1⟩, ⟨2, 1⟩, ⟨5, 2⟩] := by
    decide +kernel
  have hbelow : ∀ chunk ∈ [4, 1, 4, 3], chunk < (7 : UInt64) := by simp
  exact ⟨hrun, ((missing_chunk_ranges 7 [4, 1, 4, 3] (by decide) hbelow).2.1 _ hrun).1⟩

end VeritasSync
