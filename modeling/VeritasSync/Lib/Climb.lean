import Mathlib

/-!
# Climbing parent pointers

A forest stored child to parent is a partial function `up : α → Option α`.  Asking whether `a` is
an ancestor of `v` means following `up` from `v` until `a` turns up or the chain ends, and an
implementation that does not trust its data puts a bound on the number of nodes it looks at.
`climb up a n v` is that bounded walk: `some true` when it met `a`, `some false` when the chain
ended first, `none` when the bound ran out.

`Above up` is the unbounded relation the walk decides — `Relation.ReflTransGen` of one parent
step — and the lemmas say how the walk, the relation and a growing table interact:

* `above_of_climb` and `not_above_of_climb` read an answer back;
* `climb_mono` — an answer `true` survives every extension of the table;
* `climb_isSome_of_ends` — a chain that the bound covers is decided;
* `climb_eq_some_true_iff`, `climb_eq_some_false_iff` — what either answer says, for any table;
* `climb_eq_true_iff` — through a table with missing rows the walk gets from `v` to the node `k`
  steps up exactly if the bound allows it and none of the rows on the way is missing.

Nothing here assumes that the table is a forest.  A table that was filled from what others reported
may have cycles and missing rows, and the bound is what makes the walk end on it.  So a positive
answer is always right, in any table; a negative one is right where the chain ends within the bound;
and no answer is itself a statement, that the chain is longer than the bound or comes back.
-/

set_option autoImplicit false

universe u

namespace Climb

variable {α : Type u}

/-- `Above up v a`: following `up` from `v` passes through `a`. -/
def Above (up : α → Option α) : α → α → Prop := Relation.ReflTransGen fun v p => up v = some p

/-- `StrictlyAbove up v a`: following `up` from `v` reaches `a` after at least one step. -/
def StrictlyAbove (up : α → Option α) : α → α → Prop :=
  Relation.TransGen fun v p => up v = some p

variable {up up' : α → Option α} {a v : α}

theorem above_mono (hup : ∀ v p, up v = some p → up' v = some p) (h : Above up v a) :
    Above up' v a :=
  Relation.ReflTransGen.mono (fun v p hp => hup v p hp) _ _ h

/-! ## Ranks -/

/-- In an acyclic table two different nodes are never above one another. -/
theorem not_above_of_above (hacyclic : ∀ x, ¬ StrictlyAbove up x x) (hne : v ≠ a)
    (h : Above up v a) : ¬ Above up a v := by
  intro h'
  rcases Relation.reflTransGen_iff_eq_or_transGen.mp h with heq | ht
  · exact hne heq.symm
  · exact hacyclic v (Relation.TransGen.trans_left ht h')

/-! ## Chains that end -/

/-- The chain that starts at the given node has at most `n` nodes. -/
def Ends (up : α → Option α) : Nat → α → Prop
  | 0, _ => False
  | n + 1, v => ∀ p, up v = some p → Ends up n p

theorem Ends.mono {m n : Nat} (h : Ends up m v) (hmn : m ≤ n) : Ends up n v := by
  induction m generalizing n v with
  | zero => exact h.elim
  | succ m ih =>
    obtain ⟨k, rfl⟩ := Nat.exists_eq_add_of_lt hmn
    exact fun p hp => ih (h p hp) (Nat.le_add_right m k)

/-- A chain that ends does not come back to where it started. -/
theorem Ends.not_strictlyAbove_self {n : Nat} : ∀ {v : α}, Ends up n v →
    ¬ StrictlyAbove up v v := by
  induction n with
  | zero => exact fun h => h.elim
  | succ n ih =>
    intro v h hv
    obtain ⟨p, hp, hpv⟩ := Relation.TransGen.head'_iff.mp hv
    -- the cycle through `v` is also a cycle through its parent, whose chain is shorter
    exact ih (h p hp) (Relation.TransGen.tail' hpv hp)

/-! ## Explicit chains

Where the chain is known node by node, questions about it are questions about indices: the node `n`
steps up, and whether the rows on the way are there. -/

/-- The node `n` steps up. -/
def ancestorAt (up : α → Option α) : Nat → α → Option α
  | 0, v => some v
  | n + 1, v => (up v).bind (ancestorAt up n)

theorem ancestorAt_succ {n : Nat} : ancestorAt up (n + 1) v = some a ↔
    ∃ p, up v = some p ∧ ancestorAt up n p = some a := Option.bind_eq_some_iff

theorem ancestorAt_add (m n : Nat) (v : α) :
    ancestorAt up (m + n) v = (ancestorAt up m v).bind (ancestorAt up n) := by
  induction m generalizing v with
  | zero => rw [Nat.zero_add, ancestorAt, Option.bind_some]
  | succ m ih =>
    rw [Nat.succ_add_eq_add_succ, Nat.add_succ, ancestorAt, ancestorAt, Option.bind_assoc]
    exact congrArg _ (funext fun p => ih p)

/-- A chain goes on until its end. -/
theorem exists_up_of_ancestorAt {i k : Nat} {x : α} (hk : ancestorAt up k v = some a) (hi : i < k)
    (hx : ancestorAt up i v = some x) : ∃ z, up x = some z := by
  obtain ⟨j, rfl⟩ := Nat.exists_eq_add_of_lt hi
  rw [Nat.add_assoc, ancestorAt_add, hx, Option.bind_some] at hk
  obtain ⟨z, hz, -⟩ := ancestorAt_succ.mp hk
  exact ⟨z, hz⟩

theorem above_of_ancestorAt {n : Nat} (h : ancestorAt up n v = some a) : Above up v a := by
  induction n generalizing v with
  | zero =>
    cases h
    exact .refl
  | succ n ih =>
    obtain ⟨p, hp, h⟩ := ancestorAt_succ.mp h
    exact .head hp (ih h)

theorem strictlyAbove_of_ancestorAt {n : Nat} (hn : 0 < n) (h : ancestorAt up n v = some a) :
    StrictlyAbove up v a := by
  obtain ⟨m, rfl⟩ := Nat.exists_eq_succ_of_ne_zero (Nat.pos_iff_ne_zero.mp hn)
  obtain ⟨p, hp, h⟩ := ancestorAt_succ.mp h
  exact Relation.TransGen.head' hp (above_of_ancestorAt h)

theorem ancestorAt_of_above (h : Above up v a) : ∃ n, ancestorAt up n v = some a := by
  induction h using Relation.ReflTransGen.head_induction_on with
  | refl => exact ⟨0, rfl⟩
  | head hp _ ih =>
    obtain ⟨n, hn⟩ := ih
    exact ⟨n + 1, ancestorAt_succ.mpr ⟨_, hp, hn⟩⟩

/-! ## The bounded walk

The walk spends one unit of its bound on each node it looks at and gives up when nothing is left.
It is the loop of a program, with the same order of its tests: first whether the node is the one
wanted, then whether it has a parent. -/

variable [DecidableEq α]

/-- Follow `up` from the given node, looking at no more than `n` nodes, until `a` turns up. -/
def climb (up : α → Option α) (a : α) : Nat → α → Option Bool
  | 0, _ => none
  | n + 1, v =>
    if v = a then some true
    else
      match up v with
      | none => some false
      | some p => climb up a n p

/-- The walk only says yes when there is a chain. -/
theorem above_of_climb {n : Nat} (h : climb up a n v = some true) : Above up v a := by
  induction n generalizing v with
  | zero => cases h
  | succ n ih =>
    rw [climb] at h
    split at h
    · rename_i hva
      exact hva ▸ Relation.ReflTransGen.refl
    · split at h
      · cases h
      · rename_i p hp
        exact Relation.ReflTransGen.head hp (ih h)

/-- A chain that has ended does not continue, so a chain through `a` that ended was met. -/
theorem not_above_of_climb {n : Nat} (h : climb up a n v = some false) : ¬ Above up v a := by
  induction n generalizing v with
  | zero => cases h
  | succ n ih =>
    rw [climb] at h
    split at h
    · cases h
    · rename_i hva
      intro habove
      rcases Relation.ReflTransGen.cases_head habove with heq | ⟨p, hp, hrest⟩
      · exact hva heq
      · rw [hp] at h
        exact ih h hrest

/-- An answer `true` survives every extension of the table. -/
theorem climb_mono (hup : ∀ v p, up v = some p → up' v = some p) {n : Nat}
    (h : climb up a n v = some true) : climb up' a n v = some true := by
  induction n generalizing v with
  | zero => cases h
  | succ n ih =>
    rw [climb] at h ⊢
    split
    · rfl
    · rename_i hva
      rw [if_neg hva] at h
      split at h
      · cases h
      · rename_i p hp
        rw [hup v p hp]
        exact ih h

/-- Through a table `up'` that has some of the rows of `up`, the walk meets the node `k` steps up
exactly if the bound allows it and no row on the way is missing. -/
theorem climb_eq_true_iff (up' : α → Option α) (hacyclic : ∀ x, ¬ StrictlyAbove up x x)
    (hagree : ∀ x y z, up' x = some y → up x = some z → y = z) {k : Nat}
    (hk : ancestorAt up k v = some a) (n : Nat) :
    climb up' a n v = some true ↔
      k < n ∧ ∀ i < k, ∀ x, ancestorAt up i v = some x → up' x = up x := by
  induction k generalizing v n with
  | zero =>
    cases hk
    cases n with
    | zero => simp [climb]
    | succ n => simp [climb]
  | succ k ih =>
    obtain ⟨p, hp, hrest⟩ := ancestorAt_succ.mp hk
    have hva : v ≠ a := by
      rintro rfl
      exact hacyclic v (Relation.TransGen.head' hp (above_of_ancestorAt hrest))
    cases n with
    | zero => simp [climb]
    | succ n =>
      rw [climb, if_neg hva]
      cases hp' : up' v with
      | none =>
        refine iff_of_false (by simp) fun h => ?_
        have := h.2 0 (Nat.succ_pos k) v rfl
        rw [hp', hp] at this
        cases this
      | some q =>
        obtain rfl : q = p := hagree v q p hp' hp
        rw [ih hrest n, Nat.add_lt_add_iff_right]
        refine and_congr_right fun _ => ⟨fun h i hi x hx => ?_, fun h i hi x hx => ?_⟩
        · cases i with
          | zero =>
            cases hx
            rw [hp', hp]
          | succ i =>
            obtain ⟨q', hq', hx⟩ := ancestorAt_succ.mp hx
            obtain rfl : q' = q := Option.some.inj (hq'.symm.trans hp)
            exact h i (Nat.lt_of_succ_lt_succ hi) x hx
        · exact h (i + 1) (Nat.succ_lt_succ hi) x (ancestorAt_succ.mpr ⟨q, hp, hx⟩)

/-- The walk decides every chain the bound covers. -/
theorem climb_isSome_of_ends {n : Nat} (h : Ends up n v) : (climb up a n v).isSome = true := by
  induction n generalizing v with
  | zero => exact h.elim
  | succ n ih =>
    rw [climb]
    split
    · rfl
    · split
      · rfl
      · rename_i p hp
        exact ih (h p hp)

/-- A walk that says no has come to an end. -/
theorem ends_of_climb {n : Nat} (h : climb up a n v = some false) : Ends up n v := by
  induction n generalizing v with
  | zero => cases h
  | succ n ih =>
    rw [climb] at h
    split at h
    · cases h
    · intro p hp
      rw [hp] at h
      exact ih h

/-- **What the answer no says**: the bound covers the chain, and `a` is not on it. -/
theorem climb_eq_some_false_iff {n : Nat} :
    climb up a n v = some false ↔ Ends up n v ∧ ¬ Above up v a := by
  constructor
  · intro h
    exact ⟨ends_of_climb h, not_above_of_climb h⟩
  · rintro ⟨hends, hno⟩
    obtain ⟨answer, hanswer⟩ := Option.isSome_iff_exists.mp (climb_isSome_of_ends (a := a) hends)
    cases answer with
    | true => exact absurd (above_of_climb hanswer) hno
    | false => exact hanswer

/-- **What the answer yes says**: `a` is fewer than `n` steps up.  So a limit costs exactly the
ancestors that are too far up. -/
theorem climb_eq_some_true_iff {n : Nat} :
    climb up a n v = some true ↔ ∃ k < n, ancestorAt up k v = some a := by
  induction n generalizing v with
  | zero => simp [climb]
  | succ n ih =>
    rw [climb]
    by_cases hva : v = a
    · rw [if_pos hva]
      exact iff_of_true rfl ⟨0, Nat.succ_pos n, congrArg some hva⟩
    · rw [if_neg hva]
      constructor
      · intro h
        split at h
        · cases h
        · rename_i p hp
          obtain ⟨k, hk, hka⟩ := ih.mp h
          exact ⟨k + 1, Nat.succ_lt_succ hk, ancestorAt_succ.mpr ⟨p, hp, hka⟩⟩
      · rintro ⟨k, hk, hka⟩
        cases k with
        | zero => exact absurd (Option.some.inj hka) hva
        | succ k =>
          obtain ⟨p, hp, hka⟩ := ancestorAt_succ.mp hka
          rw [hp]
          exact ih.mpr ⟨k, Nat.lt_of_succ_lt_succ hk, hka⟩

end Climb
