import VeritasSync.Lib.Run
import VeritasSync.Storage.Database
import VeritasSync.Storage.Schema

/-!
# The table of version lineage

`RecordVersionLineage`, `FindVersionLineage` and `IsVersionAncestor` on the table as SQLite has it:
the rows of all tasks, texts that are bound as C strings, and a walk that makes one lookup a step.
The parents come from the manifests of peers, in any order; nothing makes them exist, or keeps them
from forming a cycle.

The nodes of this development see the rows of one task and compare texts whole.  The last section
says that this is the same table as long as no text has a zero byte in it.

The question that the table is asked is whether one version is an ancestor of another, and two quite
different things depend on the answer: a manifest that is ahead is applied without a conflict, and
one that is behind is ignored.  A wrong yes would lose an edit.  So the statement that matters is
that yes is never wrong and never taken back, and it has to hold for a table that was filled by
others.

## What is here

* `LineageTable` — the table, and the three functions.
* `LineageTable.ancestryWalk_eq_true_iff`, `ancestryWalk_eq_false_iff` — the walk, as a climb along
  the parents of the table.
* `version_ancestry` — **what an answer says, when there is one, and that yes stays yes**, for every
  table that comes from `RecordVersionLineage`.
* `LineageTable.Shows` — the table as a node sees it; `isVersionAncestor_eq` says that the two
  answer alike.
-/

set_option autoImplicit false

namespace VeritasSync

/-- The table `version_lineage`, and the tasks that its rows may belong to. -/
structure LineageTable where
  tasks : List Bytes
  rows : List LineageRow

namespace LineageTable

/-! ## The functions -/

/-- The row with the given primary key. -/
def select (table : LineageTable) (taskId : Bytes) (versionId : VersionId) : Option LineageRow :=
  table.rows.find? fun row => row.taskId = boundText taskId ∧ row.versionId = boundText versionId

/-- `Database::FindVersionLineage`. -/
def findVersionLineage (table : LineageTable) (taskId : Bytes) (versionId : VersionId) :
    Except Error (Option VersionLineage) :=
  if taskId = [] ∨ versionId = [] then
    .error (.invalidArgument "version lineage lookup is invalid")
  else .ok ((table.select taskId versionId).map fun row => ⟨versionId, row.parentVersionId⟩)

/-- `Database::RecordVersionLineage`. -/
def recordVersionLineage (table : LineageTable) (taskId : Bytes) (lineage : VersionLineage) :
    Except Error LineageTable := do
  if taskId = [] ∨ lineage.versionId = [] ∨ lineage.parentVersionId = some [] ∨
      lineage.parentVersionId = some lineage.versionId then
    throw (.invalidArgument "version lineage is invalid")
  match ← table.findVersionLineage taskId lineage.versionId with
  | some existing =>
    if existing.parentVersionId ≠ lineage.parentVersionId then
      throw (.invalidArgument "version lineage parent is immutable")
    pure table
  | none =>
    if boundText taskId ∉ table.tasks then
      throw (.runtimeError "insert version lineage: FOREIGN KEY constraint failed")
    pure { table with
      rows := table.rows ++ [⟨boundText taskId, boundText lineage.versionId,
        lineage.parentVersionId.map boundText⟩] }

/-- The loop of `IsVersionAncestor`, with the number of steps that are left. -/
def ancestryWalk (table : LineageTable) (taskId : Bytes) (ancestor : VersionId) :
    Nat → VersionId → Except Error Bool
  | 0, _ => .error (.runtimeError "version ancestry depth exceeds limit")
  | depth + 1, current =>
    if current = ancestor then .ok true
    else do
      let lineage ← table.findVersionLineage taskId current
      match lineage.bind VersionLineage.parentVersionId with
      | none => pure false
      | some parent => table.ancestryWalk taskId ancestor depth parent

/-- `Database::IsVersionAncestor`. -/
def isVersionAncestor (table : LineageTable) (taskId : Bytes) (ancestor descendant : VersionId) :
    Except Error Bool :=
  if taskId = [] ∨ ancestor = [] ∨ descendant = [] then
    .error (.invalidArgument "version ancestry lookup is invalid")
  else table.ancestryWalk taskId ancestor Database.ancestryLimit descendant

/-! ## The walk

The walk of the source makes one lookup for each step and gives up after a fixed number of them.
Next to it stands the climb of `VeritasSync.Lib.Climb` along the parents of the table.  They part
ways at one place: a parent whose text starts with a zero byte is stored as the empty text, and the
lookup of the empty text throws. -/

/-- The parent that a lookup of the version returns.  There is no lookup of the empty text, which
is what is left of a parent that starts with a zero byte. -/
def parentOf (table : LineageTable) (taskId : Bytes) (versionId : VersionId) : Option VersionId :=
  if versionId = [] then none
  else (table.select taskId versionId).bind LineageRow.parentVersionId

variable {table table' : LineageTable} {taskId : Bytes} {ancestor descendant : VersionId}

theorem parentOf_nil : table.parentOf taskId [] = none := if_pos rfl

/-- One round of the walk. -/
theorem ancestryWalk_succ (htask : taskId ≠ []) {depth : Nat} {current : VersionId}
    (hne : current ≠ ancestor) (hcurrent : current ≠ []) :
    table.ancestryWalk taskId ancestor (depth + 1) current =
      match table.parentOf taskId current with
      | none => .ok false
      | some parent => table.ancestryWalk taskId ancestor depth parent := by
  have hlookup : table.findVersionLineage taskId current =
      .ok ((table.select taskId current).map fun row => ⟨current, row.parentVersionId⟩) :=
    if_neg (not_or.mpr ⟨htask, hcurrent⟩)
  have hparent : ((table.select taskId current).map fun row =>
      (⟨current, row.parentVersionId⟩ : VersionLineage)).bind VersionLineage.parentVersionId =
        table.parentOf taskId current := by
    rw [parentOf, if_neg hcurrent, Option.bind_map]
    rfl
  rw [ancestryWalk, if_neg hne, hlookup, ← hparent]
  rfl

/-- The lookup of the empty text throws. -/
theorem ancestryWalk_nil (hne : ancestor ≠ []) (depth : Nat) (answer : Bool) :
    table.ancestryWalk taskId ancestor depth [] ≠ .ok answer := by
  cases depth with
  | zero => simp [ancestryWalk]
  | succ depth =>
    have hlookup : table.findVersionLineage taskId [] =
        .error (.invalidArgument "version lineage lookup is invalid") := if_pos (.inr rfl)
    rw [ancestryWalk, if_neg hne.symm, hlookup]
    intro h
    cases h

/-- **The walk says yes where a climb along the parents does.**  The walk of the source looks rows
up and can throw; the climb of the library goes along a function. -/
theorem ancestryWalk_eq_true_iff (htask : taskId ≠ []) (hancestor : ancestor ≠ []) (depth : Nat)
    (current : VersionId) :
    table.ancestryWalk taskId ancestor depth current = .ok true ↔
      Climb.climb (table.parentOf taskId) ancestor depth current = some true := by
  induction depth generalizing current with
  | zero => simp [ancestryWalk, Climb.climb]
  | succ depth ih =>
    by_cases hne : current = ancestor
    · rw [ancestryWalk, Climb.climb, if_pos hne, if_pos hne]
      exact iff_of_true rfl rfl
    by_cases hcurrent : current = []
    · subst hcurrent
      refine iff_of_false (ancestryWalk_nil hancestor _ _) ?_
      rw [Climb.climb, if_neg hne, parentOf_nil]
      simp
    rw [ancestryWalk_succ htask hne hcurrent, Climb.climb, if_neg hne]
    cases table.parentOf taskId current with
    | none => simp
    | some parent => exact ih parent

/-- It says no where a climb does, unless the chain ends in the empty text. -/
theorem ancestryWalk_eq_false_iff (htask : taskId ≠ []) (hancestor : ancestor ≠ []) (depth : Nat)
    (current : VersionId) :
    table.ancestryWalk taskId ancestor depth current = .ok false ↔
      Climb.climb (table.parentOf taskId) ancestor depth current = some false ∧
        ¬ Climb.Above (table.parentOf taskId) current [] := by
  induction depth generalizing current with
  | zero => simp [ancestryWalk, Climb.climb]
  | succ depth ih =>
    by_cases hne : current = ancestor
    · rw [ancestryWalk, Climb.climb, if_pos hne, if_pos hne]
      exact iff_of_false (by simp) (by simp)
    by_cases hcurrent : current = []
    · subst hcurrent
      exact iff_of_false (ancestryWalk_nil hancestor _ _) fun h => h.2 .refl
    rw [ancestryWalk_succ htask hne hcurrent, Climb.climb, if_neg hne]
    cases hparent : table.parentOf taskId current with
    | none =>
      refine iff_of_true rfl ⟨rfl, fun h => ?_⟩
      rcases Relation.ReflTransGen.cases_head h with heq | ⟨parent, hstep, -⟩
      · exact hcurrent heq
      · rw [hparent] at hstep
        cases hstep
    | some parent =>
      refine (ih parent).trans (and_congr_right fun _ => not_congr ⟨fun h => ?_, fun h => ?_⟩)
      · exact .head hparent h
      · rcases Relation.ReflTransGen.cases_head h with heq | ⟨parent', hstep, hrest⟩
        · exact absurd heq hcurrent
        · rw [hparent] at hstep
          exact Option.some.inj hstep ▸ hrest

/-! ## Insertions -/

/-- A row is only ever added, and only where there was none. -/
theorem recordVersionLineage_eq_ok {lineage : VersionLineage}
    (h : table.recordVersionLineage taskId lineage = .ok table') :
    table' = table ∨ (table.select taskId lineage.versionId = none ∧
      table' = { table with
        rows := table.rows ++ [⟨boundText taskId, boundText lineage.versionId,
          lineage.parentVersionId.map boundText⟩] }) := by
  rw [recordVersionLineage, unless_eq_ok] at h
  obtain ⟨hvalid, h⟩ := h
  push Not at hvalid
  rw [findVersionLineage, if_neg (not_or.mpr ⟨hvalid.1, hvalid.2.1⟩)] at h
  cases hselect : table.select taskId lineage.versionId with
  | none =>
    rw [hselect] at h
    refine .inr ⟨rfl, ?_⟩
    have h' := unless_eq_ok.mp h
    exact (Except.ok.inj h'.2).symm
  | some row =>
    rw [hselect] at h
    have h' := unless_eq_ok.mp h
    exact .inl (Except.ok.inj h'.2).symm

/-- A row that is there stays what it is. -/
theorem select_recordVersionLineage {lineage : VersionLineage} {row : LineageRow}
    (h : table.recordVersionLineage taskId lineage = .ok table') {other : Bytes}
    {versionId : VersionId} (hselect : table.select other versionId = some row) :
    table'.select other versionId = some row := by
  rcases recordVersionLineage_eq_ok h with rfl | ⟨-, rfl⟩
  · exact hselect
  · rw [select] at hselect ⊢
    rw [List.find?_append, hselect, Option.some_or]

/-- What a peer reports about a version: whose it is, and its parent. -/
abbrev Report := Bytes × VersionLineage

/-- One call of `RecordVersionLineage`; an exception leaves the table as it was. -/
def step (table : LineageTable) (report : Report) : LineageTable :=
  match table.recordVersionLineage report.1 report.2 with
  | .ok table' => table'
  | .error _ => table

theorem select_step {report : Report} {other : Bytes} {versionId : VersionId} {row : LineageRow}
    (hselect : table.select other versionId = some row) :
    (table.step report).select other versionId = some row := by
  rw [step]
  cases hrecord : table.recordVersionLineage report.1 report.2 with
  | error e => exact hselect
  | ok table' => exact select_recordVersionLineage hrecord hselect

/-- No later report changes a row. -/
theorem select_run (reports : List Report) {other : Bytes} {versionId : VersionId}
    {row : LineageRow}
    (hselect : table.select other versionId = some row) :
    (Run.run step table reports).select other versionId = some row :=
  Run.run_invariant_all (I := fun t : LineageTable => t.select other versionId = some row)
    (fun _ _ h => select_step h) reports hselect

theorem parentOf_run (reports : List Report) {versionId parent : VersionId}
    (h : table.parentOf taskId versionId = some parent) :
    (Run.run step table reports).parentOf taskId versionId = some parent := by
  rw [parentOf] at h ⊢
  split at h
  · cases h
  · rename_i hne
    obtain ⟨row, hrow, hparent⟩ := Option.bind_eq_some_iff.mp h
    rw [if_neg hne, select_run reports hrow]
    exact hparent

/-! ## What an answer says -/

theorem isVersionAncestor_eq_true_iff :
    table.isVersionAncestor taskId ancestor descendant = .ok true ↔
    (taskId ≠ [] ∧ ancestor ≠ [] ∧ descendant ≠ []) ∧
      ∃ k < Database.ancestryLimit,
        Climb.ancestorAt (table.parentOf taskId) k descendant = some ancestor := by
  rw [isVersionAncestor]
  by_cases h : taskId = [] ∨ ancestor = [] ∨ descendant = []
  · rw [if_pos h]
    exact iff_of_false (by simp) fun h' => by tauto
  · rw [if_neg h]
    push Not at h
    rw [ancestryWalk_eq_true_iff h.1 h.2.1, Climb.climb_eq_some_true_iff, and_iff_right h]

theorem isVersionAncestor_eq_false_iff :
    table.isVersionAncestor taskId ancestor descendant = .ok false ↔
      (taskId ≠ [] ∧ ancestor ≠ [] ∧ descendant ≠ []) ∧
        Climb.Ends (table.parentOf taskId) Database.ancestryLimit descendant ∧
        ¬ Climb.Above (table.parentOf taskId) descendant ancestor ∧
        ¬ Climb.Above (table.parentOf taskId) descendant [] := by
  rw [isVersionAncestor]
  by_cases h : taskId = [] ∨ ancestor = [] ∨ descendant = []
  · rw [if_pos h]
    exact iff_of_false (by simp) fun h' => by tauto
  · rw [if_neg h]
    push Not at h
    rw [ancestryWalk_eq_false_iff h.1 h.2.1, Climb.climb_eq_some_false_iff, and_iff_right h,
      and_assoc]

end LineageTable

open LineageTable in
/-- **The ancestry of versions**, for every table that any reports of the peers have made.

The answer is yes exactly if the first version is fewer than `Database.ancestryLimit` parent edges
above the second, and no exactly if the chain of the second is no longer than that and ends without
the first; the empty text, which a parent that starts with a zero byte is stored as, is no version
for a chain to end in.  There is no third way to return, so what is returned is never wrong.  No
later report changes a row, so an edge stays an edge and yes stays yes. -/
theorem version_ancestry (tasks : List Bytes) (before after : List Report) (taskId : Bytes) :
    let table := Run.run step ⟨tasks, []⟩ before
    let later := Run.run step table after
    (∀ ancestor descendant,
      (table.isVersionAncestor taskId ancestor descendant = .ok true ↔
        (taskId ≠ [] ∧ ancestor ≠ [] ∧ descendant ≠ []) ∧
          ∃ k < Database.ancestryLimit,
            Climb.ancestorAt (table.parentOf taskId) k descendant = some ancestor) ∧
      (table.isVersionAncestor taskId ancestor descendant = .ok false ↔
        (taskId ≠ [] ∧ ancestor ≠ [] ∧ descendant ≠ []) ∧
          Climb.Ends (table.parentOf taskId) Database.ancestryLimit descendant ∧
          ¬ Climb.Above (table.parentOf taskId) descendant ancestor ∧
          ¬ Climb.Above (table.parentOf taskId) descendant []) ∧
      (∀ answer, table.isVersionAncestor taskId ancestor descendant = .ok answer →
        (answer = true ↔ Climb.Above (table.parentOf taskId) descendant ancestor)) ∧
      (table.isVersionAncestor taskId ancestor descendant = .ok true →
        later.isVersionAncestor taskId ancestor descendant = .ok true)) ∧
    (∀ versionId row, table.select taskId versionId = some row →
      later.select taskId versionId = some row) ∧
    (∀ versionId parent, table.parentOf taskId versionId = some parent →
      later.parentOf taskId versionId = some parent) := by
  refine ⟨fun ancestor descendant => ⟨isVersionAncestor_eq_true_iff,
    isVersionAncestor_eq_false_iff, fun answer hanswer => ?_, fun hyes => ?_⟩,
    fun versionId row hrow => select_run after hrow,
    fun versionId parent hparent => parentOf_run after hparent⟩
  · cases answer with
    | true =>
      obtain ⟨-, k, -, hk⟩ := isVersionAncestor_eq_true_iff.mp hanswer
      exact iff_of_true rfl (Climb.above_of_ancestorAt hk)
    | false =>
      obtain ⟨-, -, hno, -⟩ := isVersionAncestor_eq_false_iff.mp hanswer
      exact iff_of_false Bool.false_ne_true hno
  · obtain ⟨hargs, hk⟩ := isVersionAncestor_eq_true_iff.mp hyes
    have hclimb := Climb.climb_eq_some_true_iff.mpr hk
    exact isVersionAncestor_eq_true_iff.mpr ⟨hargs, Climb.climb_eq_some_true_iff.mp
      (Climb.climb_mono (fun _ _ h => parentOf_run after h) hclimb)⟩

namespace LineageTable

/-! ## The table as a node sees it -/

variable {H : Type} {table : LineageTable} {taskId : Bytes} {db db' : Database H}

/-- The rows of the task are the lineage of the node, and no text of it has a zero byte. -/
structure Shows (table : LineageTable) (taskId : Bytes) (db : Database H) : Prop where
  task : taskId ≠ [] ∧ boundText taskId ∈ table.tasks
  row : ∀ versionId, 0 ∉ versionId →
    (table.select taskId versionId).map LineageRow.parentVersionId = db.lineage.find versionId
  text : ∀ versionId parent, db.lineage.find versionId = some (some parent) →
    parent ≠ [] ∧ 0 ∉ parent

theorem Shows.parentOf (h : Shows table taskId db) {versionId : VersionId} (hne : versionId ≠ [])
    (hzero : 0 ∉ versionId) : table.parentOf taskId versionId = db.parentOf versionId := by
  rw [LineageTable.parentOf, if_neg hne, Database.parentOf, ← h.row versionId hzero]
  cases table.select taskId versionId <;> rfl

theorem ancestryWalk_eq (h : Shows table taskId db) (ancestor : VersionId) (depth : Nat)
    {current : VersionId} (hne : current ≠ []) (hzero : 0 ∉ current) :
    table.ancestryWalk taskId ancestor depth current =
      (Climb.climb db.parentOf ancestor depth current).elim
        (.error (.runtimeError "version ancestry depth exceeds limit")) .ok := by
  induction depth generalizing current with
  | zero => rfl
  | succ depth ih =>
    by_cases hmet : current = ancestor
    · rw [ancestryWalk, Climb.climb, if_pos hmet, if_pos hmet]
      rfl
    rw [ancestryWalk_succ h.task.1 hmet hne, Climb.climb, if_neg hmet, h.parentOf hne hzero]
    cases hparent : db.parentOf current with
    | none => rfl
    | some parent =>
      obtain ⟨hne', hzero'⟩ := h.text current parent (Database.parentOf_eq_some.mp hparent)
      exact ih hne' hzero'

/-- The node answers as the table does. -/
theorem isVersionAncestor_eq (h : Shows table taskId db) {ancestor descendant : VersionId}
    (hzero : 0 ∉ descendant) :
    table.isVersionAncestor taskId ancestor descendant =
      db.isVersionAncestor ancestor descendant := by
  rw [isVersionAncestor, Database.isVersionAncestor]
  by_cases hargs : ancestor = [] ∨ descendant = []
  · rw [if_pos hargs, if_pos (.inr hargs)]
  · rw [if_neg hargs, if_neg (not_or.mpr ⟨h.task.1, hargs⟩),
      ancestryWalk_eq h ancestor _ (not_or.mp hargs).2 hzero]
    cases Climb.climb db.parentOf ancestor Database.ancestryLimit descendant <;> rfl

end LineageTable

end VeritasSync
