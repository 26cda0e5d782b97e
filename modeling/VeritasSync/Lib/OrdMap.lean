import Mathlib

/-!
# Finite maps as strictly sorted association lists

A table with a primary key, read back in key order, is a list of pairs whose keys strictly
increase.  Keeping that as a field of the type buys two things at once: iterating over the map is
iterating over `entries`, in order and without repetition, and two maps with the same lookups are
*equal* (`OrdMap.ext_find`), so there is no separate notion of "same contents".

`find`, `insert` and `erase` are the whole interface.  The lemmas tagged `@[simp]` describe the
two writers through the reader; nothing outside this file looks at how the list is rebuilt.

The alternative would be a function with finite support, which is easier to write down and harder to
run.  The programs verified with this file iterate over their tables all the time, compute totals
over them and return them as lists, and each of these is a one-line definition on a sorted list.
-/

set_option autoImplicit false

universe u v w

/-- A finite map from `κ` to `ν`: its entries, by strictly increasing key. -/
structure OrdMap (κ : Type u) (ν : Type v) [LinearOrder κ] where
  /-- The entries, in key order. -/
  entries : List (κ × ν)
  /-- Keys strictly increase. -/
  sorted : entries.Pairwise fun a b => a.1 < b.1
  deriving DecidableEq

namespace OrdMap

variable {κ : Type u} {ν : Type v} [LinearOrder κ]

/-- The map without entries. -/
def empty : OrdMap κ ν := ⟨[], List.Pairwise.nil⟩

/-! ## Reading -/

/-- The value stored under `k` in a list of entries. -/
def findIn (k : κ) : List (κ × ν) → Option ν
  | [] => none
  | (k', v) :: rest => if k = k' then some v else findIn k rest

/-- The value stored under `k`. -/
def find (m : OrdMap κ ν) (k : κ) : Option ν := findIn k m.entries

@[simp] theorem find_empty (k : κ) : (empty : OrdMap κ ν).find k = none := rfl

theorem findIn_eq_none_of_forall_lt {k : κ} {l : List (κ × ν)} (h : ∀ p ∈ l, k < p.1) :
    findIn k l = none := by
  induction l with
  | nil => rfl
  | cons p rest ih =>
    rw [findIn, if_neg (ne_of_lt (h p List.mem_cons_self))]
    exact ih fun q hq => h q (List.mem_cons_of_mem _ hq)

/-- With strictly increasing keys, the lookup finds every entry. -/
theorem findIn_eq_some_iff {k : κ} {v : ν} {l : List (κ × ν)}
    (hl : l.Pairwise fun a b => a.1 < b.1) : findIn k l = some v ↔ (k, v) ∈ l := by
  induction l with
  | nil => simp [findIn]
  | cons p rest ih =>
    obtain ⟨k', v'⟩ := p
    rw [List.pairwise_cons] at hl
    rw [findIn, List.mem_cons, Prod.mk.injEq]
    by_cases hk : k = k'
    · subst hk
      have hrest : (k, v) ∉ rest := fun h => lt_irrefl k (hl.1 (k, v) h)
      simp [hrest, eq_comm]
    · simp [hk, ih hl.2]

theorem find_eq_some_iff {m : OrdMap κ ν} {k : κ} {v : ν} :
    m.find k = some v ↔ (k, v) ∈ m.entries :=
  findIn_eq_some_iff m.sorted

theorem find_eq_none_iff {m : OrdMap κ ν} {k : κ} :
    m.find k = none ↔ ∀ v, (k, v) ∉ m.entries := by
  simp only [← find_eq_some_iff, Option.eq_none_iff_forall_ne_some, ne_eq]

/-- Two lists of entries in key order with the same lookups are the same list. -/
theorem eq_of_findIn_eq {l l' : List (κ × ν)} (hl : l.Pairwise fun a b => a.1 < b.1)
    (hl' : l'.Pairwise fun a b => a.1 < b.1) (h : ∀ k, findIn k l = findIn k l') : l = l' := by
  have hmem : ∀ p, p ∈ l ↔ p ∈ l' := fun p => by
    rw [← findIn_eq_some_iff (k := p.1) (v := p.2) hl, h, findIn_eq_some_iff hl']
  have hnodup : ∀ {l : List (κ × ν)}, (l.Pairwise fun a b => a.1 < b.1) → l.Nodup := fun hl =>
    List.Pairwise.imp (fun hlt heq => ne_of_lt hlt (congrArg Prod.fst heq)) hl
  have hperm : l.Perm l' := (List.perm_ext_iff_of_nodup (hnodup hl) (hnodup hl')).mpr hmem
  exact hperm.eq_of_pairwise (fun a b _ _ hab hba => absurd hba (lt_asymm hab)) hl hl'

/-- **Extensionality**: a map is determined by its lookups.  Two maps with the same bindings are the
same list, since a list in strict order is determined by its members. -/
theorem ext_find {m m' : OrdMap κ ν} (h : ∀ k, m.find k = m'.find k) : m = m' := by
  cases m with
  | mk l hl =>
    cases m' with
    | mk l' hl' =>
      have := eq_of_findIn_eq hl hl' h
      subst this
      rfl

/-! ## Writing -/

/-- Put `v` under `k` in a list of entries in key order. -/
def insertIn (k : κ) (v : ν) : List (κ × ν) → List (κ × ν)
  | [] => [(k, v)]
  | (k', v') :: rest =>
    if k < k' then (k, v) :: (k', v') :: rest
    else if k = k' then (k, v) :: rest
    else (k', v') :: insertIn k v rest

theorem findIn_insertIn (k k' : κ) (v : ν) (l : List (κ × ν)) :
    findIn k' (insertIn k v l) = if k' = k then some v else findIn k' l := by
  induction l with
  | nil => rfl
  | cons p rest ih =>
    obtain ⟨k₁, v₁⟩ := p
    rw [insertIn]
    split
    · rfl
    · split
      · rename_i _ h
        subst h
        rw [findIn, findIn]
        split <;> rfl
      · rename_i _ h
        rw [findIn, ih, findIn]
        by_cases h₁ : k' = k₁
        · subst h₁
          rw [if_pos rfl, if_pos rfl, if_neg (Ne.symm h)]
        · rw [if_neg h₁, if_neg h₁]

theorem mem_insertIn {k : κ} {v : ν} {l : List (κ × ν)} {p : κ × ν} (h : p ∈ insertIn k v l) :
    p = (k, v) ∨ p ∈ l := by
  induction l with
  | nil => exact Or.inl (List.mem_singleton.mp h)
  | cons q rest ih =>
    obtain ⟨k₁, v₁⟩ := q
    rw [insertIn] at h
    split at h
    · exact List.mem_cons.mp h
    · split at h
      · exact (List.mem_cons.mp h).imp id fun h => List.mem_cons_of_mem _ h
      · rcases List.mem_cons.mp h with h | h
        · exact Or.inr (h ▸ List.mem_cons_self)
        · exact (ih h).imp id fun h => List.mem_cons_of_mem _ h

theorem insertIn_sorted (k : κ) (v : ν) {l : List (κ × ν)}
    (hl : l.Pairwise fun a b => a.1 < b.1) : (insertIn k v l).Pairwise fun a b => a.1 < b.1 := by
  induction l with
  | nil => exact List.pairwise_singleton _ _
  | cons p rest ih =>
    obtain ⟨k₁, v₁⟩ := p
    rw [List.pairwise_cons] at hl
    rw [insertIn]
    split
    · rename_i h
      refine List.pairwise_cons.mpr ⟨fun q hq => ?_, List.pairwise_cons.mpr hl⟩
      rcases List.mem_cons.mp hq with rfl | hq
      · exact h
      · exact lt_trans h (hl.1 q hq)
    · rename_i hlt
      split
      · rename_i h
        subst h
        exact List.pairwise_cons.mpr hl
      · rename_i hne
        refine List.pairwise_cons.mpr ⟨fun q hq => ?_, ih hl.2⟩
        rcases mem_insertIn hq with rfl | hq
        · exact lt_of_le_of_ne (not_lt.mp hlt) (Ne.symm hne)
        · exact hl.1 q hq

/-- Put `v` under `k`, replacing what was there. -/
def insert (m : OrdMap κ ν) (k : κ) (v : ν) : OrdMap κ ν :=
  ⟨insertIn k v m.entries, insertIn_sorted k v m.sorted⟩

theorem find_insert (m : OrdMap κ ν) (k k' : κ) (v : ν) [Decidable (k' = k)] :
    (m.insert k v).find k' = if k' = k then some v else m.find k' :=
  (findIn_insertIn k k' v m.entries).trans (by congr)

@[simp] theorem find_insert_self (m : OrdMap κ ν) (k : κ) (v : ν) :
    (m.insert k v).find k = some v := by
  rw [find_insert, if_pos rfl]

theorem find_insert_of_ne (m : OrdMap κ ν) {k k' : κ} (v : ν) (h : k' ≠ k) :
    (m.insert k v).find k' = m.find k' := by
  rw [find_insert, if_neg h]

/-- Remove the entry under `k`. -/
def erase (m : OrdMap κ ν) (k : κ) : OrdMap κ ν :=
  ⟨m.entries.filter fun p => p.1 ≠ k, m.sorted.filter _⟩

theorem findIn_filter_ne (k k' : κ) (l : List (κ × ν)) :
    findIn k' (l.filter fun p => p.1 ≠ k) = if k' = k then none else findIn k' l := by
  induction l with
  | nil => simp [findIn]
  | cons p rest ih =>
    obtain ⟨k₁, v₁⟩ := p
    by_cases h₁ : k₁ = k
    · subst h₁
      rw [List.filter_cons_of_neg (by simp), ih, findIn]
      by_cases h : k' = k₁
      · rw [if_pos h, if_pos h]
      · rw [if_neg h, if_neg h, if_neg h]
    · rw [List.filter_cons_of_pos (by simpa using h₁), findIn, findIn, ih]
      by_cases h : k' = k₁
      · subst h
        rw [if_pos rfl, if_pos rfl, if_neg h₁]
      · rw [if_neg h, if_neg h]

theorem find_erase (m : OrdMap κ ν) (k k' : κ) [Decidable (k' = k)] :
    (m.erase k).find k' = if k' = k then none else m.find k' :=
  (findIn_filter_ne k k' m.entries).trans (by congr)

@[simp] theorem find_erase_self (m : OrdMap κ ν) (k : κ) : (m.erase k).find k = none := by
  rw [find_erase, if_pos rfl]

theorem find_erase_of_ne (m : OrdMap κ ν) {k k' : κ} (h : k' ≠ k) :
    (m.erase k).find k' = m.find k' := by
  rw [find_erase, if_neg h]

/-- Remove the entries under every key of `s`. -/
def eraseAll (m : OrdMap κ ν) (s : Finset κ) : OrdMap κ ν :=
  ⟨m.entries.filter fun p => p.1 ∉ s, m.sorted.filter _⟩

theorem find_eraseAll (m : OrdMap κ ν) (s : Finset κ) (k : κ) [Decidable (k ∈ s)] :
    (m.eraseAll s).find k = if k ∈ s then none else m.find k := by
  have hmem : ∀ v, (m.eraseAll s).find k = some v ↔ m.find k = some v ∧ k ∉ s := fun v => by
    simp [find_eq_some_iff, eraseAll]
  split
  · next hk => exact Option.eq_none_iff_forall_ne_some.mpr fun v hv => ((hmem v).mp hv).2 hk
  · next hk => exact Option.ext fun v => by simp [hmem, hk]

/-- Change the values in place. -/
def mapValues (g : κ → ν → ν) (m : OrdMap κ ν) : OrdMap κ ν :=
  ⟨m.entries.map fun p => (p.1, g p.1 p.2), m.sorted.map _ fun _ _ h => h⟩

theorem findIn_mapValues (g : κ → ν → ν) (k : κ) (l : List (κ × ν)) :
    findIn k (l.map fun p => (p.1, g p.1 p.2)) = (findIn k l).map (g k) := by
  induction l with
  | nil => rfl
  | cons p rest ih =>
    rw [List.map_cons, findIn, findIn, ih]
    split
    · next h => rw [h, Option.map_some]
    · rfl

theorem find_mapValues (g : κ → ν → ν) (m : OrdMap κ ν) (k : κ) :
    (m.mapValues g).find k = (m.find k).map (g k) :=
  findIn_mapValues g k m.entries

/-- The keys. -/
def keys (m : OrdMap κ ν) : Finset κ := (m.entries.map Prod.fst).toFinset

theorem mem_keys {m : OrdMap κ ν} {k : κ} : k ∈ m.keys ↔ m.find k ≠ none := by
  simp [keys, Option.ne_none_iff_exists', find_eq_some_iff]

/-! ## Lookups of a quantity -/

theorem findIn_map {μ : Type w} (g : ν → μ) (k : κ) (l : List (κ × ν)) :
    findIn k (l.map fun e => (e.1, g e.2)) = (findIn k l).map g := by
  induction l with
  | nil => rfl
  | cons p rest ih =>
    obtain ⟨k', v⟩ := p
    rw [List.map_cons, findIn, findIn, ih]
    split <;> rfl

/-- Where a quantity of a value tells its key, the quantities in key order tell the map. -/
theorem find_map_eq_of_values {μ : Type w} {g : ν → μ} {owner : μ → κ} {m m' : OrdMap κ ν}
    (h : ∀ e ∈ m.entries, owner (g e.2) = e.1) (h' : ∀ e ∈ m'.entries, owner (g e.2) = e.1)
    (heq : m.entries.map (fun e => g e.2) = m'.entries.map fun e => g e.2) (k : κ) :
    (m.find k).map g = (m'.find k).map g := by
  have hkeyed : ∀ {m : OrdMap κ ν}, (∀ e ∈ m.entries, owner (g e.2) = e.1) →
      (m.entries.map fun e => (e.1, g e.2)) =
        (m.entries.map fun e => g e.2).map fun v => (owner v, v) := by
    intro m h
    rw [List.map_map]
    exact List.map_congr_left fun e he => by rw [Function.comp_apply, h e he]
  rw [find, find, ← findIn_map, ← findIn_map, hkeyed h, hkeyed h', heq]

/-! ## Totals

Counters that a program keeps beside a table (bytes queued, bytes pending) are sums over the values
of the table.  `total_insert` and `total_erase` say how the sum moves, in a form without
subtraction. -/

/-- The sum of a quantity over the values. -/
def total (g : ν → Nat) (m : OrdMap κ ν) : Nat := (m.entries.map fun e => g e.2).sum

@[simp] theorem total_empty (g : ν → Nat) : (empty : OrdMap κ ν).total g = 0 := rfl

/-- The total depends on the keys and the quantities only. -/
theorem total_congr {g : ν → Nat} {m m' : OrdMap κ ν}
    (h : ∀ k, (m.find k).map g = (m'.find k).map g) : m.total g = m'.total g := by
  have hsorted : ∀ m : OrdMap κ ν,
      (m.entries.map fun e => (e.1, g e.2)).Pairwise fun a b => a.1 < b.1 := fun m =>
    List.pairwise_map.mpr m.sorted
  have hentries : (m.entries.map fun e => (e.1, g e.2)) =
      m'.entries.map fun e => (e.1, g e.2) := by
    refine eq_of_findIn_eq (hsorted m) (hsorted m') fun k => ?_
    rw [findIn_map, findIn_map]
    exact h k
  have hsum := congrArg (fun l : List (κ × Nat) => (l.map Prod.snd).sum) hentries
  simpa only [List.map_map, total, Function.comp_def] using hsum

theorem length_eq_total (m : OrdMap κ ν) : m.entries.length = m.total fun _ => 1 := by
  rw [total, List.map_const', List.sum_replicate_nat, Nat.mul_one]

theorem sum_insertIn (g : ν → Nat) (k : κ) (v : ν) {l : List (κ × ν)}
    (hl : l.Pairwise fun a b => a.1 < b.1) :
    ((insertIn k v l).map fun e => g e.2).sum + (findIn k l).elim 0 g =
      (l.map fun e => g e.2).sum + g v := by
  induction l with
  | nil => simp [insertIn, findIn]
  | cons p rest ih =>
    obtain ⟨k', v'⟩ := p
    rw [List.pairwise_cons] at hl
    rw [insertIn, findIn]
    split
    · rename_i hlt
      rw [if_neg (ne_of_lt hlt), findIn_eq_none_of_forall_lt fun q hq => lt_trans hlt (hl.1 q hq)]
      simp only [List.map_cons, List.sum_cons, Option.elim]
      omega
    · split
      · simp only [List.map_cons, List.sum_cons, Option.elim]
        omega
      · have := ih hl.2
        simp only [List.map_cons, List.sum_cons]
        omega

theorem total_insert (g : ν → Nat) (m : OrdMap κ ν) (k : κ) (v : ν) :
    (m.insert k v).total g + (m.find k).elim 0 g = m.total g + g v :=
  sum_insertIn g k v m.sorted

theorem sum_filter_ne (g : ν → Nat) (k : κ) {l : List (κ × ν)}
    (hl : l.Pairwise fun a b => a.1 < b.1) :
    ((l.filter fun p => p.1 ≠ k).map fun e => g e.2).sum + (findIn k l).elim 0 g =
      (l.map fun e => g e.2).sum := by
  induction l with
  | nil => rfl
  | cons p rest ih =>
    obtain ⟨k', v'⟩ := p
    rw [List.pairwise_cons] at hl
    rw [findIn]
    by_cases hk : k = k'
    · subst hk
      have hrest : rest.filter (fun p => p.1 ≠ k) = rest :=
        List.filter_eq_self.mpr fun q hq => decide_eq_true (ne_of_gt (hl.1 q hq))
      rw [List.filter_cons_of_neg (by simp), hrest, if_pos rfl]
      simp only [List.map_cons, List.sum_cons, Option.elim]
      omega
    · have := ih hl.2
      rw [List.filter_cons_of_pos (by simpa using Ne.symm hk), if_neg hk]
      simp only [List.map_cons, List.sum_cons]
      omega

theorem total_erase (g : ν → Nat) (m : OrdMap κ ν) (k : κ) :
    (m.erase k).total g + (m.find k).elim 0 g = m.total g :=
  sum_filter_ne g k m.sorted

end OrdMap
