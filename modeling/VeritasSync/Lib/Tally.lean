import VeritasSync.Lib.OrdMap

/-!
# Counting

`tally l` says how often each value occurs in a list, and `groups l`, for a list of pairs, how many
pairs each first component has, with a tally of their second components.  Both are maps that a loop
fills, `++counts[key]` for each element, and neither depends on the order of the list:
`groups_perm`.

A report that is computed from such a map is therefore a function of the multiset that was counted.

This is a way to say that a report gives nothing away.  Showing that two directories with different
names lead to the same report means showing that the counted elements are a permutation of one
another, and that is a statement about lists in which the maps do not occur.
-/

set_option autoImplicit false

universe u v w

namespace OrdMap

variable {κ : Type u} {ν : Type v} {μ : Type w} [LinearOrder κ] [LinearOrder μ]

/-- Replace the value under a key. -/
def alter (m : OrdMap κ ν) (k : κ) (f : Option ν → ν) : OrdMap κ ν := m.insert k (f (m.find k))

theorem find_alter (m : OrdMap κ ν) (k k' : κ) (f : Option ν → ν) [Decidable (k' = k)] :
    (m.alter k f).find k' = if k' = k then some (f (m.find k)) else m.find k' :=
  find_insert m k k' _

/-- Two replacements may change places, if those of one key may. -/
theorem alter_comm (m : OrdMap κ ν) {k k' : κ} {f g : Option ν → ν}
    (h : k = k' → ∀ v, g (some (f v)) = f (some (g v))) :
    (m.alter k f).alter k' g = (m.alter k' g).alter k f := by
  refine ext_find fun x => ?_
  simp only [find_alter]
  by_cases hk : k = k'
  · subst hk
    by_cases hx : x = k
    · simp only [hx, if_true, h rfl]
    · simp only [if_neg hx]
  · by_cases hx : x = k'
    · subst hx
      simp [Ne.symm hk]
    · by_cases hx' : x = k
      · subst hx'
        simp [hk]
      · simp [hx, hx']

/-- `++counts[k]`. -/
def increment (m : OrdMap κ Nat) (k : κ) : OrdMap κ Nat := m.alter k fun n => n.getD 0 + 1

theorem increment_comm (m : OrdMap κ Nat) (k k' : κ) :
    (m.increment k).increment k' = (m.increment k').increment k :=
  alter_comm m fun _ _ => rfl

/-- Count a pair: in the total of its first component and in the tally that goes with it. -/
def record (m : OrdMap κ (Nat × OrdMap μ Nat)) (e : κ × μ) : OrdMap κ (Nat × OrdMap μ Nat) :=
  m.alter e.1 fun group =>
    ((group.getD (0, empty)).1 + 1, (group.getD (0, empty)).2.increment e.2)

theorem record_comm (m : OrdMap κ (Nat × OrdMap μ Nat)) (e e' : κ × μ) :
    (m.record e).record e' = (m.record e').record e := by
  refine alter_comm m fun _ v => Prod.ext rfl ?_
  simp only [Option.getD_some]
  exact increment_comm _ _ _

/-- The pairs of a list, by their first component. -/
def groups (l : List (κ × μ)) : OrdMap κ (Nat × OrdMap μ Nat) := l.foldl record empty

/-- **The order does not matter.**  The groups are therefore a function of the multiset of what was
counted. -/
theorem groups_perm {l l' : List (κ × μ)} (h : l.Perm l') : groups l = groups l' :=
  h.foldl_eq' (fun e _ e' _ m => record_comm m e e') empty

end OrdMap
