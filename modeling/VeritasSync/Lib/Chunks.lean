import Mathlib

/-!
# Lists that are copied piece by piece

A list is cut into pieces of a fixed width, the last one possibly shorter, and the pieces are
written in any order into a buffer that grows as it has to.  `Agrees w buffer l done` is what such a
copy maintains: the buffer does not outgrow the list, and every position whose piece has been
written holds the right element.  When every piece has been written the buffer is the list.

The second half is about the numbers of the pieces: the ones missing from an increasing list of
numbers, as runs.

The copy is stated position by position and not piece by piece.  A piece that arrives twice, or
after its neighbours, or with others missing in between, then needs no case of its own: writing it
makes its positions right and leaves the others as they were, and the gap a late piece leaves behind
is filled with something that no statement mentions until the piece is there.
-/

set_option autoImplicit false

namespace Chunks

variable {α : Type}

/-! ## Pieces -/

/-- The `i`-th piece of width `w`. -/
def piece (w : Nat) (l : List α) (i : Nat) : List α := (l.drop (i * w)).take w

/-- The number of pieces. -/
def count (w n : Nat) : Nat := (n + w - 1) / w

@[simp] theorem length_piece (w : Nat) (l : List α) (i : Nat) :
    (piece w l i).length = min w (l.length - i * w) := by
  rw [piece, List.length_take, List.length_drop]

theorem getElem?_piece {w i k : Nat} {l : List α} (hk : k < w) :
    (piece w l i)[k]? = l[i * w + k]? := by
  rw [piece, List.getElem?_take_of_lt hk, List.getElem?_drop]

theorem lt_count_iff {w n i : Nat} (hw : 0 < w) : i < count w n ↔ i * w < n := by
  rw [count, Nat.lt_div_iff_mul_lt hw]
  omega

theorem div_lt_count {w n j : Nat} (hw : 0 < w) (hj : j < n) : j / w < count w n := by
  rw [lt_count_iff hw]
  exact Nat.lt_of_le_of_lt (Nat.div_mul_le_self j w) hj

/-! ## Writing -/

/-- The buffer after a write at an offset; a gap is filled with `pad`. -/
def overwrite (pad : α) (buffer : List α) (offset : Nat) (l : List α) : List α :=
  buffer.take offset ++ List.replicate (offset - buffer.length) pad ++ l ++
    buffer.drop (offset + l.length)

variable {pad : α} {buffer l : List α} {offset j : Nat}

theorem length_overwrite :
    (overwrite pad buffer offset l).length = max buffer.length (offset + l.length) := by
  simp only [overwrite, List.length_append, List.length_take, List.length_replicate,
    List.length_drop]
  omega

theorem length_front :
    (buffer.take offset ++ List.replicate (offset - buffer.length) pad).length = offset := by
  simp only [List.length_append, List.length_take, List.length_replicate]
  omega

theorem getElem?_overwrite_inside (hle : offset ≤ j) (hlt : j < offset + l.length) :
    (overwrite pad buffer offset l)[j]? = l[j - offset]? := by
  rw [overwrite, List.append_assoc, List.getElem?_append_right (by rw [length_front]; exact hle),
    length_front, List.getElem?_append_left (by omega)]

theorem getElem?_overwrite_outside (hout : j < offset ∨ offset + l.length ≤ j)
    (hj : j < buffer.length) : (overwrite pad buffer offset l)[j]? = buffer[j]? := by
  rw [overwrite]
  rcases hout with hlt | hle
  · rw [List.append_assoc, List.getElem?_append_left (by rw [length_front]; exact hlt),
      List.getElem?_append_left (by rw [List.length_take]; omega), List.getElem?_take_of_lt hlt]
  · rw [List.getElem?_append_right (by rw [List.length_append, length_front]; exact hle),
      List.length_append, length_front, List.getElem?_drop]
    congr 1
    omega

/-! ## Copies -/

/-- The buffer holds the pieces of `l` whose numbers are in `done`. -/
structure Agrees (w : Nat) (buffer l : List α) (done : List Nat) : Prop where
  length_le : buffer.length ≤ l.length
  getElem? : ∀ j < l.length, j / w ∈ done → buffer[j]? = l[j]?

variable {w : Nat} {done : List Nat}

theorem agrees_nil : Agrees w [] l [] := ⟨Nat.zero_le _, fun _ _ h => nomatch h⟩

theorem Agrees.mono {done' : List Nat} (h : Agrees w buffer l done)
    (hsub : ∀ i ∈ done', i ∈ done) : Agrees w buffer l done' :=
  ⟨h.length_le, fun j hj hmem => h.getElem? j hj (hsub _ hmem)⟩

/-- A piece that is not empty takes part of the buffer. -/
theorem Agrees.ne_nil (h : Agrees w buffer l done) (hw : 0 < w) {i : Nat} (hi : i ∈ done)
    (hlt : i < count w l.length) : buffer ≠ [] := by
  rintro rfl
  have hj : i * w < l.length := (lt_count_iff hw).mp hlt
  have hget := h.getElem? (i * w) hj (by rwa [Nat.mul_div_cancel _ hw])
  rw [List.getElem?_nil, List.getElem?_eq_getElem hj] at hget
  cases hget

/-- Writing a piece adds it, and disturbs no other. -/
theorem Agrees.overwrite (h : Agrees w buffer l done) (hw : 0 < w) {i : Nat}
    (hlt : i < count w l.length) :
    Agrees w (overwrite pad buffer (i * w) (piece w l i)) l (i :: done) := by
  have hstart : i * w < l.length := (lt_count_iff hw).mp hlt
  constructor
  · rw [length_overwrite, length_piece]
    have := h.length_le
    omega
  · intro j hj hmem
    by_cases hji : j / w = i
    · have hle : i * w ≤ j := hji ▸ Nat.div_mul_le_self j w
      have hlt' : j < i * w + w := by
        have := Nat.lt_div_mul_add (a := j) hw
        rwa [hji] at this
      rw [getElem?_overwrite_inside hle (by rw [length_piece]; omega),
        getElem?_piece (by omega)]
      congr 1
      omega
    · have hold := h.getElem? j hj ((List.mem_cons.mp hmem).resolve_left hji)
      have hbuffer : j < buffer.length := by
        rw [List.getElem?_eq_getElem hj] at hold
        exact (List.getElem?_eq_some_iff.mp hold).1
      rw [getElem?_overwrite_outside ?_ hbuffer, hold]
      by_contra hin
      rw [not_or, not_lt, not_le, length_piece] at hin
      refine hji (Nat.div_eq_of_lt_le hin.1 ?_)
      rw [Nat.succ_mul]
      omega

/-- A copy of every piece is a copy of the list. -/
theorem Agrees.eq (h : Agrees w buffer l done) (hw : 0 < w)
    (hall : ∀ i < count w l.length, i ∈ done) : buffer = l := by
  refine List.ext_getElem? fun j => ?_
  by_cases hj : j < l.length
  · exact h.getElem? j hj (hall _ (div_lt_count hw hj))
  · have hlength := h.length_le
    rw [List.getElem?_eq_none (by omega), List.getElem?_eq_none (by omega)]

/-! ## Numbers that are missing

Asking for the rest of a copy means listing the pieces that are not there.  The list is computed
from the sorted numbers of the ones that are, with a cursor that jumps over each of them; between
two of them lies a run. -/

/-- The numbers from `cursor` up to `total` that are not in `done`. -/
def missing (total cursor : Nat) (done : List Nat) : List Nat :=
  (List.range' cursor (total - cursor)).filter fun i => i ∉ done

theorem missing_nil (total cursor : Nat) :
    missing total cursor [] = List.range' cursor (total - cursor) := by
  simp [missing]

/-- The numbers before the first one that is there form a run. -/
theorem missing_cons {total cursor i : Nat} (hcursor : cursor ≤ i) (htotal : i < total)
    (hrest : ∀ k ∈ done, i < k) :
    missing total cursor (i :: done) =
      List.range' cursor (i - cursor) ++ missing total (i + 1) done := by
  have hsplit : List.range' cursor (total - cursor) =
      List.range' cursor (i - cursor) ++ i :: List.range' (i + 1) (total - (i + 1)) := by
    rw [← List.range'_succ, show total - (i + 1) + 1 = total - i by omega,
      show total - cursor = (i - cursor) + (total - i) by omega, ← List.range'_append]
    congr 2
    omega
  have hfront : ∀ k ∈ List.range' cursor (i - cursor), k ∉ i :: done := by
    intro k hk hmem
    rw [List.mem_range'_1] at hk
    rcases List.mem_cons.mp hmem with rfl | hmem
    · omega
    · have := hrest k hmem
      omega
  have hback : ∀ k ∈ List.range' (i + 1) (total - (i + 1)), (k ∉ i :: done ↔ k ∉ done) := by
    intro k hk
    rw [List.mem_range'_1] at hk
    rw [List.mem_cons, not_or, and_iff_right (by omega)]
  rw [missing, missing, hsplit, List.filter_append, List.filter_cons]
  congr 1
  · exact List.filter_eq_self.mpr fun k hk => decide_eq_true (hfront k hk)
  · rw [if_neg (by simp)]
    exact List.filter_congr fun k hk => decide_eq_decide.mpr (hback k hk)

end Chunks
