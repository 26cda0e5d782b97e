import Mathlib

/-!
# Tables with references between them

A relational database is a list of rows for each table.  A table may refer to another: what is in
some of its columns is the key of a row there.  `DELETE` takes rows out of one table, and what
becomes of a row that refers to one of them is part of the reference: it goes too, its reference is
set to NULL, or it must not be there when the statement ends.

`T` is the type of the names of the tables, and `Row t` that of the rows of the table `t`.

## What is here

* `Schema` — which rows have the same primary key, and what refers to what.
* `Valid` — no two rows with one key, and no reference to a row that is not there.
* `delete` — a statement with its actions; `execute` — the same with the check at its end.
* `restrict`, `ForeignKeys.restrict` — what is left when some rows are gone, and when no reference
  to them is.
* `delete_apply` — **a statement whose rows no action belongs to** only takes out these rows.
* `insertRow`, `upsertRow`, `updateRows` — the statements that write rows; `Valid.insertRow`,
  `Valid.upsertRow`, `Valid.updateRows` say when they keep what a database system keeps up.
* `Valid.eq_of_sameKey`, `Valid.find?_eq` — a key determines its row, and a lookup under it finds
  that row.
* `orderBy` — the rows in the order of a key.

The schema is data: which tables there are is a type, and what refers to what is a list for each of
them.  A theorem about deletion is then about all schemas in which the rows that go along are
themselves referred to by nothing (`flat`), and a concrete database only has to list its references.
The order in which a database system carries out its actions does not appear, and under this
condition it does not matter.
-/

set_option autoImplicit false

namespace Relational

/-! ## Schemas

Keys are given by a relation on rows and not by a projection, since the keys of different tables
have different types and a statement never needs the key by itself. -/

/-- What becomes of a row when the row that it refers to is deleted. -/
inductive Action (R : Type) where
  | noAction
  | cascade
  | setNull (clear : R → R)

/-- Whether a row of this table must be gone before the row that it refers to. -/
def Action.isNoAction {R : Type} : Action R → Bool
  | noAction => true
  | cascade => false
  | setNull _ => false

variable {T : Type} {Row : T → Type}

/-- A reference from the table `t`. -/
structure Reference (Row : T → Type) (t : T) where
  parent : T
  /-- None of the referring columns is NULL. -/
  bound : Row t → Bool
  /-- The referring columns are the key of that row. -/
  refers : Row t → Row parent → Bool
  action : Action (Row t)

/-- What SQL knows about the tables.  A table whose rows are deleted or changed along with others is
one that nothing refers to. -/
structure Schema (T : Type) (Row : T → Type) where
  sameKey : ∀ t, Row t → Row t → Bool
  references : ∀ t, List (Reference Row t)
  flat : ∀ t, ∀ ref ∈ references t, ref.action.isNoAction = false →
    ∀ t', ∀ ref' ∈ references t', ref'.parent ≠ t

variable {schema : Schema T Row} {db : ∀ t, List (Row t)}

/-- Every reference is to a row that is there. -/
def ForeignKeys (schema : Schema T Row) (db : ∀ t, List (Row t)) : Prop :=
  ∀ t, ∀ ref ∈ schema.references t, ∀ row ∈ db t, ref.bound row = true →
    ∃ p ∈ db ref.parent, ref.refers row p = true

instance [Fintype T] : Decidable (ForeignKeys schema db) :=
  inferInstanceAs (Decidable (∀ _, _))

/-- What a database system keeps up. -/
structure Valid (schema : Schema T Row) (db : ∀ t, List (Row t)) : Prop where
  keys : ∀ t, (db t).Pairwise fun a b => schema.sameKey t a b = false
  foreignKeys : ForeignKeys schema db

/-! ## Statements -/

/-- The rows of one table, as a selection from all of them. -/
def onTable [DecidableEq T] (table : T) (p : Row table → Bool) (t : T) (row : Row t) : Bool :=
  if h : t = table then p (h ▸ row) else false

/-- Whether the row refers to one that is selected. -/
def hits (db : ∀ t, List (Row t)) (doomed : ∀ t, Row t → Bool) {t : T} (ref : Reference Row t)
    (row : Row t) : Bool :=
  ref.bound row && (db ref.parent).any fun p => doomed ref.parent p && ref.refers row p

/-- Whether the row is deleted along with one that is selected. -/
def cascades (schema : Schema T Row) (db : ∀ t, List (Row t)) (doomed : ∀ t, Row t → Bool) (t : T)
    (row : Row t) : Bool :=
  (schema.references t).any fun ref =>
    match ref.action with
    | .cascade => hits db doomed ref row
    | _ => false

/-- What is left of the row, if it stays. -/
def cleared (schema : Schema T Row) (db : ∀ t, List (Row t)) (doomed : ∀ t, Row t → Bool) (t : T)
    (row : Row t) : Row t :=
  (schema.references t).foldl (fun left ref =>
    match ref.action with
    | .setNull clear => if hits db doomed ref row then clear left else left
    | _ => left) row

/-- `DELETE`, with the actions of the references. -/
def delete (schema : Schema T Row) (doomed : ∀ t, Row t → Bool) (db : ∀ t, List (Row t)) :
    ∀ t, List (Row t) := fun t =>
  ((db t).filter fun row => !(doomed t row || cascades schema db doomed t row)).map
    (cleared schema db doomed t)

/-- A statement succeeds if no reference to a missing row is left at its end, and has no effect if
it does not. -/
def execute {ε : Type} [Fintype T] (schema : Schema T Row) (failed : ε)
    (f : (∀ t, List (Row t)) → ∀ t, List (Row t)) (db : ∀ t, List (Row t)) :
    Except ε (∀ t, List (Row t)) :=
  if ForeignKeys schema (f db) then .ok (f db) else .error failed

theorem execute_eq_ok_iff {ε : Type} [Fintype T] {failed : ε}
    {f : (∀ t, List (Row t)) → ∀ t, List (Row t)} {db' : ∀ t, List (Row t)} :
    execute schema failed f db = .ok db' ↔ ForeignKeys schema (f db) ∧ db' = f db := by
  rw [execute]
  split
  · rename_i h
    rw [Except.ok.injEq, and_iff_right h, eq_comm]
  · rename_i h
    exact iff_of_false (by simp) fun h' => h h'.1

section OnTable

variable [DecidableEq T] {table t : T} {p : Row table → Bool}

@[simp] theorem onTable_self (row : Row table) : onTable table p table row = p row := dif_pos rfl

theorem onTable_of_ne (h : t ≠ table) (row : Row t) : onTable table p t row = false := dif_neg h

end OnTable

/-! ## What is left

Most statements take some rows out and do nothing else.  `restrict` is the database without them,
and whether it is valid is a question about the references that are left. -/

/-- The rows that are kept. -/
def restrict (keep : ∀ t, Row t → Bool) (db : ∀ t, List (Row t)) : ∀ t, List (Row t) := fun t =>
  (db t).filter (keep t)

/-- No reference is left dangling when what a kept row refers to is kept. -/
theorem ForeignKeys.restrict {keep : ∀ t, Row t → Bool} (h : ForeignKeys schema db)
    (hkeep : ∀ t, ∀ ref ∈ schema.references t, ∀ row ∈ db t, ∀ p ∈ db ref.parent,
      keep t row = true → ref.bound row = true → ref.refers row p = true →
        keep ref.parent p = true) :
    ForeignKeys schema (restrict keep db) := by
  intro t ref href row hrow hbound
  obtain ⟨hmem, hkept⟩ := List.mem_filter.mp hrow
  obtain ⟨p, hp, hrefers⟩ := h t ref href row hmem hbound
  exact ⟨p, List.mem_filter.mpr ⟨hp, hkeep t ref href row hmem p hp hkept hbound hrefers⟩, hrefers⟩

theorem cleared_of_noAction {doomed : ∀ t, Row t → Bool} {t : T}
    (h : ∀ ref ∈ schema.references t, ref.action.isNoAction = true ∨
      ∀ row ∈ db ref.parent, doomed ref.parent row = false) (row : Row t) :
    cleared schema db doomed t row = row ∧ cascades schema db doomed t row = false := by
  have hno : ∀ ref ∈ schema.references t, ref.action.isNoAction = true ∨
      hits db doomed ref row = false := by
    intro ref href
    refine (h ref href).imp_right fun hnone => ?_
    rw [hits, Bool.and_eq_false_iff]
    refine .inr (List.any_eq_false.mpr fun p hp => ?_)
    rw [hnone p hp]
    exact Bool.false_ne_true
  constructor
  · rw [cleared]
    refine List.foldlRecOn (motive := fun left => left = row) _ _ rfl fun left hleft ref href => ?_
    subst hleft
    rcases hno ref href with haction | hhits
    · cases hact : ref.action with
      | noAction => rfl
      | cascade => rfl
      | setNull clear =>
        rw [hact] at haction
        cases haction
    · cases ref.action with
      | noAction => rfl
      | cascade => rfl
      | setNull clear => exact if_neg (by rw [hhits]; exact Bool.false_ne_true)
  · refine List.any_eq_false.mpr fun ref href => ?_
    rcases hno ref href with haction | hhits
    · cases hact : ref.action with
      | noAction => exact Bool.false_ne_true
      | cascade =>
        rw [hact] at haction
        cases haction
      | setNull clear => exact Bool.false_ne_true
    · cases ref.action with
      | noAction => exact Bool.false_ne_true
      | cascade =>
        rw [hhits]
        exact Bool.false_ne_true
      | setNull clear => exact Bool.false_ne_true

/-- **A table that no selected row has rows to act on** only loses the rows that are selected. -/
theorem delete_apply {doomed : ∀ t, Row t → Bool} {t : T}
    (h : ∀ ref ∈ schema.references t, ref.action.isNoAction = true ∨
      ∀ row ∈ db ref.parent, doomed ref.parent row = false) :
    delete schema doomed db t = (db t).filter fun row => !doomed t row := by
  have hmap : cleared schema db doomed t = id := funext fun row => (cleared_of_noAction h row).1
  rw [delete, hmap, List.map_id]
  refine List.filter_congr fun row _ => ?_
  rw [(cleared_of_noAction h row).2, Bool.or_false]

/-! ## Writing a row -/

section Writing

variable [DecidableEq T] {table t : T} {row : Row table} {change : Row table → Row table}

/-- `INSERT`: the row comes last in its table. -/
def insertRow (table : T) (row : Row table) (db : ∀ t, List (Row t)) : ∀ t, List (Row t) :=
  Function.update db table (db table ++ [row])

/-- `INSERT … ON CONFLICT … DO UPDATE SET …`: a row that is there under the key is changed. -/
def upsertRow (schema : Schema T Row) (table : T) (row : Row table)
    (change : Row table → Row table) (db : ∀ t, List (Row t)) : ∀ t, List (Row t) :=
  Function.update db table
    (if (db table).any (schema.sameKey table row) then
      (db table).map fun old => if schema.sameKey table row old then change old else old
    else db table ++ [row])

/-- `UPDATE … SET … WHERE …`. -/
def updateRows (table : T) (selects : Row table → Bool) (change : Row table → Row table)
    (db : ∀ t, List (Row t)) : ∀ t, List (Row t) :=
  Function.update db table ((db table).map fun row => if selects row then change row else row)

@[simp] theorem insertRow_self : insertRow table row db table = db table ++ [row] :=
  Function.update_self ..

@[simp] theorem updateRows_self {selects : Row table → Bool} :
    updateRows table selects change db table =
      (db table).map fun row => if selects row then change row else row :=
  Function.update_self ..

theorem updateRows_of_ne {selects : Row table → Bool} (h : t ≠ table) :
    updateRows table selects change db t = db t :=
  Function.update_of_ne h ..

theorem insertRow_of_ne (h : t ≠ table) : insertRow table row db t = db t :=
  Function.update_of_ne h ..

theorem upsertRow_of_ne (h : t ≠ table) : upsertRow schema table row change db t = db t :=
  Function.update_of_ne h ..

/-- The row is there when all columns outside of the key are set. -/
theorem mem_upsertRow
    (hchange : ∀ old, schema.sameKey table row old = true → change old = row) :
    row ∈ upsertRow schema table row change db table := by
  rw [upsertRow, Function.update_self]
  split
  · rename_i hany
    obtain ⟨old, hold, hkey⟩ := List.any_eq_true.mp hany
    exact List.mem_map.mpr ⟨old, hold, by rw [if_pos hkey, hchange old hkey]⟩
  · exact List.mem_append_right _ (List.mem_singleton_self row)

/-- A row under another key stays. -/
theorem mem_upsertRow_of_mem {other : Row table} (h : other ∈ db table)
    (hkey : schema.sameKey table row other = false) :
    other ∈ upsertRow schema table row change db table := by
  rw [upsertRow, Function.update_self]
  split
  · exact List.mem_map.mpr ⟨other, h, if_neg (by rw [hkey]; exact Bool.false_ne_true)⟩
  · exact List.mem_append_left _ h

/-- What is there after an upsert is the row, a changed row, or a row under another key. -/
theorem mem_upsertRow_cases {other : Row table}
    (h : other ∈ upsertRow schema table row change db table) :
    (other ∈ db table ∧ schema.sameKey table row other = false) ∨ other = row ∨
      ∃ old ∈ db table, schema.sameKey table row old = true ∧ other = change old := by
  rw [upsertRow, Function.update_self] at h
  split at h
  · obtain ⟨old, hold, rfl⟩ := List.mem_map.mp h
    by_cases hkey : schema.sameKey table row old = true
    · rw [if_pos hkey]
      exact .inr (.inr ⟨old, hold, hkey, rfl⟩)
    · rw [if_neg hkey]
      exact .inl ⟨hold, Bool.eq_false_iff.mpr hkey⟩
  · rename_i hnone
    rcases List.mem_append.mp h with hmem | hmem
    · exact .inl ⟨hmem, Bool.eq_false_iff.mpr (List.any_eq_false.mp
        (Bool.eq_false_iff.mpr hnone) other hmem)⟩
    · exact .inr (.inl (List.mem_singleton.mp hmem))

/-- A row under each key that was there is still there. -/
theorem exists_upsertRow {p : Row table → Prop}
    (hchange : ∀ old, schema.sameKey table row old = true → p old → p (change old))
    (h : ∃ old ∈ db table, p old) : ∃ new ∈ upsertRow schema table row change db table, p new := by
  obtain ⟨old, hold, hp⟩ := h
  rw [upsertRow, Function.update_self]
  split
  · refine ⟨_, List.mem_map_of_mem hold, ?_⟩
    split
    · rename_i hkey
      exact hchange old hkey hp
    · exact hp
  · exact ⟨old, List.mem_append_left _ hold, hp⟩

/-! ## Reading a row back -/

/-- A lookup that selects rows under one key sees the new row under this key, and what it saw before
under another. -/
theorem find?_upsertRow {p : Row table → Bool}
    (hset : ∀ old, schema.sameKey table row old = true → change old = row)
    (hkey : ∀ old, schema.sameKey table row old = true → p old = p row)
    (hone : ∀ old, p row = true → p old = true → schema.sameKey table row old = true) :
    (upsertRow schema table row change db table).find? p =
      if p row then some row else (db table).find? p := by
  rw [upsertRow, Function.update_self]
  split
  · rename_i hany
    -- by induction on the rows: the first one with the key becomes the new row
    have hchanged : ∀ l : List (Row table),
        l.any (schema.sameKey table row) = true ∨ p row = false →
        (l.map fun old => if schema.sameKey table row old then change old else old).find? p =
          if p row then some row else l.find? p := by
      intro l hl
      induction l with
      | nil =>
        rcases hl with hl | hl
        · cases hl
        · rw [hl]
          rfl
      | cons old rest ih =>
        rw [List.map_cons]
        by_cases hsame : schema.sameKey table row old = true
        · rw [if_pos hsame, hset old hsame]
          by_cases hrow : p row = true
          · rw [List.find?_cons_of_pos hrow, if_pos hrow]
          · have hrest := ih (.inr (Bool.eq_false_iff.mpr hrow))
            rw [if_neg hrow] at hrest ⊢
            rw [List.find?_cons_of_neg hrow, hrest,
              List.find?_cons_of_neg (by rw [hkey old hsame]; exact hrow)]
        · rw [if_neg hsame]
          have hrest := ih (hl.imp_left fun hany => by
            rw [List.any_cons, Bool.or_eq_true] at hany
            exact hany.resolve_left hsame)
          by_cases hold : p old = true
          · have hrow : ¬ p row = true := fun hrow => hsame (hone old hrow hold)
            rw [if_neg hrow, List.find?_cons_of_pos hold, List.find?_cons_of_pos hold]
          · rw [List.find?_cons_of_neg hold, hrest, List.find?_cons_of_neg hold]
    exact hchanged _ (.inl hany)
  · rename_i hnone
    rw [List.find?_append]
    by_cases hrow : p row = true
    · rw [if_pos hrow, List.find?_cons_of_pos hrow, List.find?_eq_none.mpr, Option.none_or]
      intro old hold hp
      exact hnone (List.any_eq_true.mpr ⟨old, hold, hone old hrow hp⟩)
    · rw [if_neg hrow, List.find?_cons_of_neg hrow, List.find?_nil, Option.or_none]

theorem find?_insertRow {p : Row table → Bool}
    (hnew : (db table).any (schema.sameKey table row) = false)
    (hone : ∀ old, p row = true → p old = true → schema.sameKey table row old = true) :
    (insertRow table row db table).find? p = if p row then some row else (db table).find? p := by
  rw [insertRow_self, List.find?_append]
  by_cases hrow : p row = true
  · rw [if_pos hrow, List.find?_cons_of_pos hrow, List.find?_eq_none.mpr, Option.none_or]
    intro old hold hp
    exact List.any_eq_false.mp hnew old hold (hone old hrow hp)
  · rw [if_neg hrow, List.find?_cons_of_neg hrow, List.find?_nil, Option.or_none]

end Writing

/-! ## What the statements keep

A database system enforces two things, that keys are unique and that references are not dangling.
The lemmas say for each statement that writes when both survive, so that validity is an invariant of
a program without its having to check anything. -/

section Keeping

variable {table : T} {row : Row table} {change : Row table → Row table}
  (hcomm : ∀ t a b, schema.sameKey t a b = schema.sameKey t b a)
include hcomm

/-- Rows that are changed under their keys. -/
theorem pairwise_map_change {l : List (Row table)} {p : Row table → Bool}
    (h : l.Pairwise fun a b => schema.sameKey table a b = false)
    (hchange : ∀ old other, schema.sameKey table (change old) other =
      schema.sameKey table old other) :
    (l.map fun old => if p old then change old else old).Pairwise
      fun a b => schema.sameKey table a b = false := by
  have hside : ∀ old other, schema.sameKey table (if p old then change old else old) other =
      schema.sameKey table old other := by
    intro old other
    split
    · exact hchange old other
    · rfl
  refine List.pairwise_map.mpr (h.imp fun {a b} hab => ?_)
  rw [hside, hcomm, hside, hcomm]
  exact hab

/-- A row under a key that no row has. -/
theorem pairwise_append_row {l : List (Row table)}
    (h : l.Pairwise fun a b => schema.sameKey table a b = false)
    (hnew : l.any (schema.sameKey table row) = false) :
    (l ++ [row]).Pairwise fun a b => schema.sameKey table a b = false := by
  refine List.pairwise_append.mpr ⟨h, List.pairwise_singleton _ _, fun a ha b hb => ?_⟩
  rw [List.mem_singleton.mp hb, hcomm]
  exact Bool.eq_false_iff.mpr fun hsame => List.any_eq_false.mp hnew a ha hsame

variable [DecidableEq T]

theorem Valid.insertRow (h : Valid schema db)
    (hnew : (db table).any (schema.sameKey table row) = false)
    (hkeys : ForeignKeys schema (insertRow table row db)) :
    Valid schema (insertRow table row db) := by
  refine ⟨fun t => ?_, hkeys⟩
  by_cases ht : t = table
  · subst ht
    rw [insertRow_self]
    exact pairwise_append_row hcomm (h.keys t) hnew
  · rw [insertRow_of_ne ht]
    exact h.keys t

theorem Valid.upsertRow (h : Valid schema db)
    (hchange : ∀ old other, schema.sameKey table (change old) other =
      schema.sameKey table old other)
    (hkeys : ForeignKeys schema (upsertRow schema table row change db)) :
    Valid schema (upsertRow schema table row change db) := by
  refine ⟨fun t => ?_, hkeys⟩
  by_cases ht : t = table
  · subst ht
    rw [Relational.upsertRow, Function.update_self]
    split
    · exact pairwise_map_change hcomm (h.keys t) hchange
    · rename_i hany
      exact pairwise_append_row hcomm (h.keys t) (Bool.eq_false_iff.mpr hany)
  · rw [upsertRow_of_ne ht]
    exact h.keys t

theorem Valid.updateRows {selects : Row table → Bool} (h : Valid schema db)
    (hchange : ∀ old other, schema.sameKey table (change old) other =
      schema.sameKey table old other)
    (hkeys : ForeignKeys schema (updateRows table selects change db)) :
    Valid schema (updateRows table selects change db) := by
  refine ⟨fun t => ?_, hkeys⟩
  by_cases ht : t = table
  · subst ht
    rw [updateRows_self]
    exact pairwise_map_change hcomm (h.keys t) hchange
  · rw [updateRows_of_ne ht]
    exact h.keys t

end Keeping

/-! ## Rows under their keys -/

section Keys

variable {table : T} {row : Row table} {p : Row table → Bool}

/-- Rows that are selected under other keys. -/
theorem Valid.pairwise_ne {κ : Type} {key : Row table → κ} (h : Valid schema db)
    (hkey : ∀ a b, p a = true → p b = true → key a = key b → schema.sameKey table a b = true) :
    ((db table).filter p).Pairwise fun a b => key a ≠ key b := by
  refine ((h.keys table).filter p).imp_of_mem fun {a b} ha hb hdiffer heq => ?_
  have hsame := hkey a b (List.mem_filter.mp ha).2 (List.mem_filter.mp hb).2 heq
  exact Bool.false_ne_true (hdiffer.symm.trans hsame)

/-- Two rows with one key are one row. -/
theorem Valid.eq_of_sameKey (hcomm : ∀ t a b, schema.sameKey t a b = schema.sameKey t b a)
    (h : Valid schema db) {a b : Row table} (ha : a ∈ db table) (hb : b ∈ db table)
    (hkey : schema.sameKey table a b = true) : a = b := by
  have : Std.Symm fun a b : Row table => schema.sameKey table a b = false :=
    ⟨fun a b hab => (hcomm table b a).trans hab⟩
  by_contra hne
  have hdiffer := (h.keys table).forall ha hb hne
  exact Bool.false_ne_true (hdiffer.symm.trans hkey)

/-- A lookup that selects rows under one key finds the only one there is. -/
theorem Valid.find?_eq (hcomm : ∀ t a b, schema.sameKey t a b = schema.sameKey t b a)
    (h : Valid schema db) (hrow : row ∈ db table) (hp : p row = true)
    (hone : ∀ other, p other = true → schema.sameKey table other row = true) :
    (db table).find? p = some row := by
  cases hfind : (db table).find? p with
  | none => exact absurd hp (List.find?_eq_none.mp hfind row hrow)
  | some other =>
    have hother : other ∈ db table := List.mem_of_find?_eq_some hfind
    rw [h.eq_of_sameKey hcomm hother hrow (hone other (List.find?_some hfind))]

end Keys

/-! ## Rows in an order -/

section Order

variable {α κ : Type} [LinearOrder κ] {key : α → κ} {l l' : List α}

/-- `ORDER BY`: rows with equal keys stay in their order. -/
def orderBy (key : α → κ) (rows : List α) : List α := rows.insertionSort fun a b => key a ≤ key b

theorem mem_orderBy {a : α} : a ∈ orderBy key l ↔ a ∈ l := List.mem_insertionSort _

theorem pairwise_orderBy (l : List α) : (orderBy key l).Pairwise fun a b => key a ≤ key b := by
  have : Std.Total fun a b : α => key a ≤ key b := ⟨fun a b => le_total (key a) (key b)⟩
  have : IsTrans α fun a b => key a ≤ key b := ⟨fun _ _ _ hab hbc => le_trans hab hbc⟩
  exact List.pairwise_insertionSort _ l

/-- Rows in the order of their keys, no two with one key, are determined by which they are. -/
theorem eq_of_increasing (h : l.Pairwise fun a b => key a < key b)
    (h' : l'.Pairwise fun a b => key a < key b) (hmem : ∀ a, a ∈ l ↔ a ∈ l') : l = l' := by
  have hnodup : ∀ {l : List α}, (l.Pairwise fun a b => key a < key b) → l.Nodup :=
    fun hl => List.Pairwise.imp (fun hab => ne_of_apply_ne key (ne_of_lt hab)) hl
  have hperm : l.Perm l' := (List.perm_ext_iff_of_nodup (hnodup h) (hnodup h')).mpr hmem
  exact hperm.eq_of_pairwise (fun a b _ _ hab hba => absurd hba (lt_asymm hab)) h h'

/-- What `ORDER BY` a key returns. -/
theorem orderBy_eq (hkeys : l.Pairwise fun a b => key a ≠ key b)
    (h' : l'.Pairwise fun a b => key a < key b) (hmem : ∀ a, a ∈ l ↔ a ∈ l') :
    orderBy key l = l' := by
  have hne : (orderBy key l).Pairwise fun a b => key a ≠ key b :=
    (List.perm_insertionSort _ l).symm.pairwise hkeys fun hab => hab.symm
  refine eq_of_increasing ?_ h' fun a => mem_orderBy.trans (hmem a)
  exact (pairwise_orderBy l).imp₂ (fun a b hle hab => lt_of_le_of_ne hle hab) hne

theorem orderBy_map {β : Type} {f : β → α} (l : List β) :
    orderBy key (l.map f) = (orderBy (fun b => key (f b)) l).map f :=
  (List.map_insertionSort _ _ f l fun _ _ _ _ => Iff.rfl).symm

end Order

end Relational
