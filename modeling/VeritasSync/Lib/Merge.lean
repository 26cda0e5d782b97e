import Mathlib

/-!
# Walking two sorted lists with one index each

A loop that has to look up the elements of one sorted list in another one keeps an index into the
second list and only ever moves it forward.  In terms of lists, the index is what has not been
dropped yet: before each lookup, `dropWhile` removes the elements whose key is too small, and the
lookup inspects the head of what is left.

`head?_dropWhile_filter` says that the inspection finds what a search of the list would, and
`find?_dropWhile` that the dropped elements do not matter to any later lookup.

An index that only moves forward is right for sorted lists and wrong for all others, and a program
that uses one usually sorts first.  The lemmas turn the loop into one that searches from the start
each time.  After that its order of evaluation does not matter any more, and a proof about it is a
proof about `find?`.
-/

set_option autoImplicit false

universe u v

namespace Merge

variable {α : Type u} {κ : Type v} [LinearOrder κ]

/-- The keys strictly increase. -/
def Sorted (key : α → κ) (l : List α) : Prop := l.Pairwise fun a b => key a < key b

variable {key : α → κ} {l : List α} {k k' : κ}

theorem Sorted.tail {a : α} (h : Sorted key (a :: l)) : Sorted key l := (List.pairwise_cons.mp h).2

theorem Sorted.lt {a b : α} (h : Sorted key (a :: l)) (hb : b ∈ l) : key a < key b :=
  (List.pairwise_cons.mp h).1 b hb

theorem Sorted.sublist {l' : List α} (h : Sorted key l) (hl : l'.Sublist l) : Sorted key l' :=
  List.Pairwise.sublist hl h

theorem Sorted.eq_of_key_eq (h : Sorted key l) {a b : α} (ha : a ∈ l) (hb : b ∈ l)
    (hkey : key a = key b) : a = b := by
  induction l with
  | nil => cases ha
  | cons c l ih =>
    rcases List.mem_cons.mp ha with rfl | ha'
    · rcases List.mem_cons.mp hb with rfl | hb'
      · rfl
      · exact absurd hkey (ne_of_lt (h.lt hb'))
    · rcases List.mem_cons.mp hb with rfl | hb'
      · exact absurd hkey.symm (ne_of_lt (h.lt ha'))
      · exact ih h.tail ha' hb'

theorem Sorted.nodup (h : Sorted key l) : (l.map key).Nodup :=
  List.pairwise_map.mpr (h.imp fun hlt => ne_of_lt hlt)

theorem Sorted.le (h : Sorted key l) : l.Pairwise fun a b => key a ≤ key b :=
  h.imp fun hlt => hlt.le

/-- Elements with distinct keys that are in order are in strict order. -/
theorem Sorted.of_le (h : l.Pairwise fun a b => key a ≤ key b) (hnodup : (l.map key).Nodup) :
    Sorted key l :=
  (h.and (List.pairwise_map.mp hnodup)).imp fun hab => lt_of_le_of_ne hab.1 hab.2

/-- There is one way to sort elements with distinct keys. -/
theorem Sorted.eq_of_perm {l' : List α} (h : Sorted key l) (h' : Sorted key l')
    (hperm : l.Perm l') : l = l' := by
  have hasymm : ∀ a b, a ∈ l → b ∈ l' → key a < key b → key b < key a → a = b :=
    fun _ _ _ _ hab hba => absurd hba (not_lt_of_gt hab)
  exact List.Perm.eq_of_pairwise hasymm h h' hperm

-- the callers compare keys with an instance of their own
variable [DecidableEq κ]

/-- In a sorted list a search by key finds the one element with that key. -/
theorem Sorted.find?_eq_some_iff (h : Sorted key l) {a : α} :
    (l.find? fun b => key b = k) = some a ↔ a ∈ l ∧ key a = k := by
  constructor
  · intro ha
    exact ⟨List.mem_of_find?_eq_some ha, by simpa using List.find?_some ha⟩
  · rintro ⟨ha, rfl⟩
    cases hb : l.find? fun b => key b = key a with
    | none => simpa using List.find?_eq_none.mp hb a ha
    | some b =>
      have hkey : key b = key a := by simpa using List.find?_some hb
      rw [h.eq_of_key_eq (List.mem_of_find?_eq_some hb) ha hkey]

/-- Nothing in a sorted list has a key below that of its head. -/
theorem Sorted.find?_eq_none_of_lt {a : α} (h : Sorted key (a :: l)) (hk : k < key a) :
    ((a :: l).find? fun b => key b = k) = none := by
  refine List.find?_eq_none.mpr fun b hb => ?_
  rcases List.mem_cons.mp hb with rfl | hb
  · simpa using (ne_of_lt hk).symm
  · simpa using (ne_of_lt (hk.trans (h.lt hb))).symm

variable [DecidableLT κ]

/-- After the smaller elements have been dropped, the head is what a search would find. -/
theorem head?_dropWhile_filter (h : Sorted key l) :
    ((l.dropWhile fun a => key a < k).head?.filter fun a => key a = k)
      = l.find? fun a => key a = k := by
  induction l with
  | nil => rfl
  | cons a l ih =>
    by_cases hlt : key a < k
    · rw [List.dropWhile_cons_of_pos (by simpa using hlt), ih h.tail,
        List.find?_cons_of_neg (by simpa using ne_of_lt hlt)]
    · rw [List.dropWhile_cons_of_neg (by simpa using hlt), List.head?_cons]
      by_cases heq : key a = k
      · rw [List.find?_cons_of_pos (by simpa using heq), Option.filter_some, if_pos (by simpa)]
      · rw [h.find?_eq_none_of_lt (lt_of_le_of_ne (not_lt.mp hlt) (Ne.symm heq)),
          Option.filter_some, if_neg (by simpa)]

/-- The same for a loop that only asks whether there is such an element. -/
theorem head?_dropWhile_any (h : Sorted key l) :
    ((l.dropWhile fun a => key a < k).head?.any fun a => key a = k)
      = (l.find? fun a => key a = k).isSome := by
  rw [← head?_dropWhile_filter h]
  cases (l.dropWhile fun a => key a < k).head? with
  | none => rfl
  | some a => simp [Option.filter_some, apply_ite]

omit [DecidableEq κ] in
/-- What has been dropped has a smaller key. -/
theorem mem_dropWhile_of_le {a : α} (ha : a ∈ l) (hk : k ≤ key a) :
    a ∈ l.dropWhile fun a => key a < k := by
  rw [← List.takeWhile_append_dropWhile (p := fun a => decide (key a < k)) (l := l),
    List.mem_append] at ha
  refine ha.resolve_left fun htake => ?_
  have hlt : key a < k := by simpa using List.mem_takeWhile_imp htake
  exact absurd hk (not_le.mpr hlt)

/-- What has been dropped does not matter to a later lookup. -/
theorem find?_dropWhile (hk : k ≤ k') :
    ((l.dropWhile fun a => key a < k).find? fun a => key a = k')
      = l.find? fun a => key a = k' := by
  induction l with
  | nil => rfl
  | cons a l ih =>
    by_cases hlt : key a < k
    · rw [List.dropWhile_cons_of_pos (by simpa using hlt), ih,
        List.find?_cons_of_neg (by simpa using ne_of_lt (hlt.trans_le hk))]
    · rw [List.dropWhile_cons_of_neg (by simpa using hlt)]

end Merge
