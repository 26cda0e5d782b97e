import VeritasSync.Lib.Transaction
import VeritasSync.Storage.Schema

/-!
# The deletion of a task

`DeleteTask` empties ten tables, one statement each, in a transaction.  Five more go with the row of
the task: four lose the rows that refer to it, and the events stay without a task.

The order of the ten statements is not arbitrary.  Foreign keys are checked at the end of each
statement, so a table can only be emptied when whatever refers to it has been emptied before; and
one of the tables, the marks of the chunks, has no column for the task and has to be found through
another one that is therefore emptied after it.  `Orderly` says that an order is good, for any list
of tables, and that the order of the source is one is decided by evaluation.

## What is here

* `deleteTask` — the statements, the transaction, and the look at the number of rows.
* `swept` — the tables when some of them have been emptied; `Deletion.run_swept` is one statement,
  and `deleteAll_swept` all of them.
* `delete_task` — **the rows of the task go, and nothing else does**.
-/

set_option autoImplicit false

namespace VeritasSync

open Exec Relational Transaction

/-! ## The statements -/

/-- `TaskDefinition`: what the service knows of a task, read from its two rows. -/
structure TaskDefinition where
  taskId : Bytes
  mode : Bytes
  role : Bytes
  rootPath : Bytes
  deriving DecidableEq

namespace Tables

/-- `Database::FindTask`: the task with this identifier, if it has a row. -/
def findTask (db : Tables) (taskId : Bytes) : Except Error (Option TaskDefinition) :=
  if taskId = [] then .error (.invalidArgument "task id is required")
  else
    .ok (((db .tasks).find? fun row => row.taskId = some (boundText taskId)).map fun row =>
      ⟨taskId, row.mode, row.role, row.rootPath⟩)

end Tables

/-- A statement `DELETE FROM table WHERE …`. -/
structure Deletion where
  table : TableName
  selects : Tables → Row table → Bool

/-- `DELETE FROM table WHERE task_id=?`. -/
def Deletion.ofTask (table : TableName) (task : Bytes) : Deletion where
  table := table
  selects _ row := taskColumn table row = some task

/-- `DELETE FROM transfer_chunks WHERE transfer_id IN (SELECT transfer_id FROM transfers WHERE
task_id=?)`. -/
def Deletion.ofTransfers (task : Bytes) : Deletion where
  table := .transferChunks
  selects db chunk := (db .transfers).any fun transfer =>
    transfer.transferId = some chunk.transferId ∧ transfer.taskId = task

/-- `kSql`: the statements that `DeleteTask` executes, in their order. -/
def deletions (task : Bytes) : List Deletion :=
  [.ofTransfers task, .ofTask .transfers task, .ofTask .conflicts task,
    .ofTask .ignorePolicyState task, .ofTask .ignorePolicyRevisions task,
    .ofTask .versionLineage task, .ofTask .taskClocks task, .ofTask .peerState task,
    .ofTask .fileRecords task, .ofTask .tasks task]

/-- The statement, and `sqlite3_changes`: the number of rows that it has selected itself. -/
def Deletion.run (d : Deletion) (db : Tables) : Except Error (Nat × Tables) :=
  (execute schema (.runtimeError "delete task state: FOREIGN KEY constraint failed")
    (delete schema (onTable d.table (d.selects db))) db).map fun db' =>
      (((db d.table).filter (d.selects db)).length, db')

/-- The loop over the statements, with the changes of the last one. -/
def deleteAll (fault : Nat → Option Error) :
    List Deletion → Nat → Exec (Connection Tables) Error Nat
  | [], changes => pure changes
  | d :: rest, _ => do
    let changes ← statement fault d.run
    deleteAll fault rest changes

/-- `Database::DeleteTask`: the statements in one transaction.  The first that fails undoes them
all. -/
def deleteTask (fault : Nat → Option Error) (taskId : Bytes) :
    Exec (Connection Tables) Error Unit :=
  if taskId = [] then raise (.invalidArgument "task id is required")
  else
    inTransaction fault do
      let changes ← deleteAll fault (deletions (boundText taskId)) 0
      when (changes ≠ 1) (raise (.invalidArgument "task does not exist"))

/-! ## What the statements do together -/

/-- The statements, when the storage does not fail. -/
def runDeletions : List Deletion → Nat → Tables → Except Error (Nat × Tables)
  | [], changes, db => .ok (changes, db)
  | d :: rest, _, db => d.run db >>= fun r => runDeletions rest r.1 r.2

/-- `DeleteTask` between the two ends of its transaction. -/
def deleteRows (task : Bytes) (db : Tables) : Except Error (Unit × Tables) :=
  runDeletions (deletions task) 0 db >>= fun r =>
    if r.1 ≠ 1 then .error (.invalidArgument "task does not exist") else .ok ((), r.2)

section Implementation

variable {fault : Nat → Option Error}

theorem implements_deleteAll (ds : List Deletion) (changes : Nat) :
    Implements fault (deleteAll fault ds changes) (runDeletions ds changes) := by
  induction ds generalizing changes with
  | nil => exact implements_pure changes
  | cons d rest ih => exact (implements_statement d.run).bind fun n => ih n

theorem implements_deleteRows (task : Bytes) :
    Implements fault (do
      let changes ← deleteAll fault (deletions task) 0
      when (changes ≠ 1) (raise (.invalidArgument "task does not exist")))
      (deleteRows task) :=
  (implements_deleteAll _ _).bind fun _ => (implements_raise _).ite (implements_pure ())

end Implementation

/-! ## One statement -/

/-- What is left when these tables have been emptied of the rows of the task. -/
def swept (task : Bytes) (tables : List TableName) (db : Tables) : Tables :=
  restrict (fun table row => !(table ∈ tables && Belongs db task table row)) db

/-- What refers to one of these tables is one of them. -/
def Closed (tables : List TableName) : Prop :=
  ∀ table, ∀ ref ∈ schema.references table, ref.parent ∈ tables → table ∈ tables

instance decidableClosed (tables : List TableName) : Decidable (Closed tables) :=
  inferInstanceAs (Decidable (∀ _, _))

variable {db : Tables} {task : Bytes} {tables : List TableName}

theorem swept_apply (table : TableName) : swept task tables db table =
    (db table).filter fun row => !(table ∈ tables && Belongs db task table row) := rfl

theorem keep_iff {table : TableName} {row : Row table} :
    (!(table ∈ tables && Belongs db task table row)) = true ↔
      ¬ (table ∈ tables ∧ Belongs db task table row = true) := by
  rw [Bool.not_eq_true', Bool.and_eq_false_iff, not_and_or, decide_eq_false_iff_not,
    Bool.not_eq_true]

theorem mem_swept {table : TableName} {row : Row table} :
    row ∈ swept task tables db table ↔
      row ∈ db table ∧ ¬ (table ∈ tables ∧ Belongs db task table row = true) := by
  rw [swept_apply, List.mem_filter, keep_iff]

theorem belongs_iff {table : TableName} (h : table ≠ .transferChunks) {row : Row table} :
    Belongs db task table row = true ↔ taskColumn table row = some task := by
  cases table
  case transferChunks => exact absurd rfl h
  all_goals
    show decide (taskColumn _ row = some task) = true ↔ _
    exact decide_eq_true_iff

theorem belongs_chunk_iff {chunk : TransferChunkRow} :
    Belongs db task .transferChunks chunk = true ↔
      ∃ transfer ∈ db .transfers,
        transfer.transferId = some chunk.transferId ∧ transfer.taskId = task := by
  rw [Belongs, List.any_eq_true]
  simp only [decide_eq_true_iff]

theorem belongs_of_toTasks {table : TableName} {action : Action (Row table)} {row : Row table}
    {p : TaskRow} (hne : table ≠ .transferChunks)
    (hrefers : (toTasks table action).refers row p = true)
    (h : Belongs db task .tasks p = true) : Belongs db task table row = true := by
  obtain ⟨value, hrow, hp⟩ := sameValue_iff.mp hrefers
  have htask : p.taskId = some task := (belongs_iff (by decide)).mp h
  rw [belongs_iff hne, hrow, ← hp, htask]

/-- A row that refers to one of the task belongs to the task. -/
theorem belongs_of_refers {table : TableName} {ref : Reference Row table}
    (href : ref ∈ schema.references table) {row : Row table} {p : Row ref.parent}
    (hp : p ∈ db ref.parent) (hrefers : ref.refers row p = true)
    (h : Belongs db task ref.parent p = true) : Belongs db task table row = true := by
  cases table
  case schemaMigrations | tasks => exact absurd href List.not_mem_nil
  case transferChunks =>
    obtain rfl := List.mem_singleton.mp href
    exact belongs_chunk_iff.mpr ⟨p, hp, of_decide_eq_true hrefers,
      Option.some.inj ((belongs_iff (by decide)).mp h)⟩
  case ignorePolicyState =>
    rcases List.mem_cons.mp href with rfl | href
    · exact belongs_of_toTasks (by decide) hrefers h
    · obtain rfl := List.mem_singleton.mp href
      have hkey := of_decide_eq_true hrefers
      exact (belongs_iff (by decide)).mpr (hkey.1.trans ((belongs_iff (by decide)).mp h))
  all_goals
    obtain rfl := List.mem_singleton.mp href
    exact belongs_of_toTasks (by decide) hrefers h

theorem swept_of_notMem (task : Bytes) (db : Tables) {table : TableName} (h : table ∉ tables) :
    swept task tables db table = db table := by
  rw [swept_apply]
  simp [h]

/-- No reference is left dangling when the tables are emptied from the outside in. -/
theorem foreignKeys_swept (h : ForeignKeys schema db) (hclosed : Closed tables) :
    ForeignKeys schema (swept task tables db) := by
  refine h.restrict fun table ref href row _ p hp hkeep _ hrefers => keep_iff.mpr ?_
  rintro ⟨hparent, hbelongs⟩
  exact keep_iff.mp hkeep
    ⟨hclosed table ref href hparent, belongs_of_refers href hp hrefers hbelongs⟩

/-- **One statement** takes its rows away, and nothing else, if the tables that refer to it have
been emptied already. -/
theorem Deletion.run_swept (h : ForeignKeys schema db) (d : Deletion)
    (hclosed : Closed (d.table :: tables))
    (hactions : ∀ table, ∀ ref ∈ schema.references table, ref.parent = d.table →
      ref.action.isNoAction = true)
    (hselects : d.selects (swept task tables db) = Belongs db task d.table) :
    ∃ changes, d.run (swept task tables db) = .ok (changes, swept task (d.table :: tables) db) := by
  have hrows : delete schema (onTable d.table (d.selects (swept task tables db)))
      (swept task tables db) = swept task (d.table :: tables) db := by
    funext table
    rw [delete_apply, swept_apply, swept_apply, List.filter_filter]
    · refine List.filter_congr fun row _ => ?_
      by_cases htable : table = d.table
      · subst htable
        rw [onTable_self, hselects]
        cases Belongs db task d.table row <;> simp
      · rw [onTable_of_ne htable]
        simp [htable]
    · intro ref href
      by_cases hparent : ref.parent = d.table
      · exact .inl (hactions table ref href hparent)
      · exact .inr fun row _ => onTable_of_ne hparent row
  have hvalid : ForeignKeys schema (swept task (d.table :: tables) db) :=
    foreignKeys_swept h hclosed
  rw [← hrows] at hvalid
  rw [Deletion.run, execute, if_pos hvalid, hrows]
  exact ⟨_, rfl⟩

/-! ## All of them

The proof follows the list of statements with the set of tables that have been emptied so far.  What
is left of a database after that is known without looking at any statement again: it is `swept`. -/

/-- Nothing that refers to the table is changed when a row of it is deleted. -/
def NoActions (table : TableName) : Prop :=
  ∀ child, ∀ ref ∈ schema.references child, ref.parent = table → ref.action.isNoAction = true

instance decidableNoActions (table : TableName) : Decidable (NoActions table) :=
  inferInstanceAs (Decidable (∀ _, _))

/-- **The order of the statements**: a table is emptied when all that refer to it have been. -/
def Orderly : List TableName → List TableName → Prop
  | _, [] => True
  | done, table :: rest =>
    (table ≠ .transferChunks ∧ NoActions table ∧ Closed (table :: done)) ∧
      Orderly (table :: done) rest

instance decidableOrderly : ∀ done rest, Decidable (Orderly done rest)
  | _, [] => inferInstanceAs (Decidable True)
  | done, table :: rest =>
    have := decidableOrderly (table :: done) rest
    inferInstanceAs (Decidable (_ ∧ Orderly (table :: done) rest))

theorem runDeletions_cons {d : Deletion} {rest : List Deletion} {changes n : Nat} {db db' : Tables}
    (h : d.run db = .ok (n, db')) :
    runDeletions (d :: rest) changes db = runDeletions rest n db' := by
  rw [runDeletions, h]
  rfl

/-- A statement that compares the column selects the rows of the task. -/
theorem selects_ofTask {table : TableName} (hne : table ≠ .transferChunks) (db' : Tables) :
    (Deletion.ofTask table task).selects db' = Belongs db task table := by
  funext row
  refine Bool.eq_iff_iff.mpr (Iff.trans ?_ (belongs_iff hne).symm)
  exact decide_eq_true_iff

/-- Statements in an order that respects the references. -/
theorem runDeletions_ofTask (task : Bytes) (h : ForeignKeys schema db) (order : List TableName)
    (last : List Deletion) (changes : Nat) (horder : Orderly tables order) :
    ∃ n, runDeletions (order.map (Deletion.ofTask · task) ++ last) changes (swept task tables db) =
      runDeletions last n (swept task (order.reverse ++ tables) db) := by
  induction order generalizing tables changes with
  | nil => exact ⟨changes, rfl⟩
  | cons table rest ih =>
    obtain ⟨⟨hne, hactions, hclosed⟩, hrest⟩ := horder
    obtain ⟨n, hrun⟩ := Deletion.run_swept h (.ofTask table task) hclosed hactions
      (selects_ofTask hne _)
    obtain ⟨n', hn'⟩ := ih n hrest
    refine ⟨n', ?_⟩
    rw [List.map_cons, List.cons_append, runDeletions_cons hrun, List.reverse_cons,
      List.append_assoc]
    exact hn'

/-- The tables whose statements come between the first and the last. -/
def emptied : List TableName :=
  [.transfers, .conflicts, .ignorePolicyState, .ignorePolicyRevisions, .versionLineage,
    .taskClocks, .peerState, .fileRecords]

/-- The tables that are emptied before the last statement. -/
def emptiedFirst : List TableName := emptied.reverse ++ [.transferChunks]

/-- All statements but the last. -/
theorem runDeletions_emptied (task : Bytes) (h : ForeignKeys schema db) : ∃ n,
    runDeletions (deletions task) 0 db =
      runDeletions [.ofTask .tasks task] n (swept task emptiedFirst db) := by
  have hswept : swept task [] db = db := by
    funext table
    rw [swept_apply]
    simp
  have hclosed : Closed [.transferChunks] := by decide
  have hactions : NoActions .transferChunks := by decide
  have horder : Orderly [.transferChunks] emptied := by decide
  obtain ⟨n, hfirst⟩ := Deletion.run_swept h (.ofTransfers task) hclosed hactions
    (congrArg (Deletion.ofTransfers task).selects hswept)
  rw [hswept] at hfirst
  obtain ⟨n', hn'⟩ := runDeletions_ofTask task h emptied [.ofTask .tasks task] n horder
  exact ⟨n', (runDeletions_cons hfirst).trans hn'⟩

/-- What `DeleteTask` leaves: each table without the rows that belong to the task, directly or
through a row it refers to.  The events of the task stay, without their reference. -/
def withoutTask (task : Bytes) (db : Tables) : Tables
  | .engineEvents => (db .engineEvents).map fun event =>
      if event.taskId = some task then { event with taskId := none } else event
  | table => (db table).filter fun row => !Belongs db task table row

/-- The row of the task. -/
def theTask (task : Bytes) : ∀ table, Row table → Bool :=
  onTable .tasks fun row => row.taskId = some task

theorem theTask_of_ne {table : TableName} (h : table ≠ .tasks) (row : Row table) :
    theTask task table row = false := onTable_of_ne h row

theorem theTask_tasks (row : TaskRow) :
    theTask task .tasks row = decide (row.taskId = some task) := by
  rw [theTask, onTable_self]

/-- The last statement finds the row that a row of the task refers to. -/
theorem hits_tasks (task : Bytes) (h : ForeignKeys schema db) (table : TableName)
    (action : Action (Row table)) (href : toTasks table action ∈ schema.references table)
    {row : Row table} (hrow : row ∈ db table) :
    hits (swept task emptiedFirst db) (theTask task) (toTasks table action) row =
      decide (taskColumn table row = some task) := by
  rw [Bool.eq_iff_iff, decide_eq_true_iff, hits, Bool.and_eq_true, List.any_eq_true]
  constructor
  · rintro ⟨-, p, -, hp⟩
    obtain ⟨hdoomed, hrefers⟩ := Bool.and_eq_true_iff.mp hp
    obtain ⟨value, hvalue, hpvalue⟩ := sameValue_iff.mp hrefers
    have htask : p.taskId = some task :=
      of_decide_eq_true ((theTask_tasks p).symm.trans hdoomed)
    rw [hvalue, ← hpvalue, htask]
  · intro htask
    have hbound : (toTasks table action).bound row = true := by
      show (taskColumn table row).isSome = true
      rw [htask]
      rfl
    obtain ⟨p, hp, hrefers⟩ := h table _ href row hrow hbound
    obtain ⟨value, hvalue, hpvalue⟩ := sameValue_iff.mp hrefers
    have hptask : p.taskId = some task := by rw [hpvalue, ← hvalue, htask]
    have hkept : TableName.tasks ∉ emptiedFirst := by decide
    refine ⟨hbound, p, mem_swept.mpr ⟨hp, fun hin => hkept hin.1⟩,
      Bool.and_eq_true_iff.mpr ⟨?_, hrefers⟩⟩
    exact (theTask_tasks p).trans (decide_eq_true hptask)

/-- The last statement. -/
def deleteTasks (task : Bytes) (db : Tables) : Tables :=
  delete schema (theTask task) (swept task emptiedFirst db)

/-- A table that the last statement does not act on. -/
theorem deleteTasks_of_noAction {table : TableName} (hne : table ≠ .tasks)
    (hactions : ∀ ref ∈ schema.references table, ref.action.isNoAction = true) :
    deleteTasks task db table = swept task emptiedFirst db table := by
  rw [deleteTasks, delete_apply fun ref href => .inl (hactions ref href)]
  refine List.filter_eq_self.mpr fun row _ => ?_
  rw [theTask_of_ne hne]
  rfl

/-- A table whose rows go with the row of the task. -/
theorem deleteTasks_of_cascade (h : ForeignKeys schema db) {table : TableName}
    (hrefs : schema.references table = [toTasks table .cascade]) (hne : table ≠ .tasks)
    (hchunks : table ≠ .transferChunks) (hfirst : table ∉ emptiedFirst) :
    deleteTasks task db table = (db table).filter fun row => !Belongs db task table row := by
  have hcleared : ∀ D doomed, cleared schema D doomed table = id := by
    intro D doomed
    funext row
    rw [cleared, hrefs]
    rfl
  rw [deleteTasks, delete, hcleared, List.map_id, swept_of_notMem _ _ hfirst]
  refine List.filter_congr fun row hrow => ?_
  have hhits := hits_tasks task h table .cascade
    (by rw [hrefs]; exact List.mem_singleton_self _) hrow
  rw [theTask_of_ne hne, cascades, hrefs, Bool.false_or, List.any_cons, List.any_nil, Bool.or_false,
    Bool.eq_iff_iff, Bool.not_eq_true', Bool.not_eq_true', ← Bool.not_eq_true, ← Bool.not_eq_true,
    belongs_iff hchunks]
  refine not_congr ?_
  show hits _ _ (toTasks table .cascade) row = true ↔ _
  rw [hhits, decide_eq_true_iff]

/-- The events, which stay. -/
theorem deleteTasks_engineEvents (h : ForeignKeys schema db) :
    deleteTasks task db .engineEvents = (db .engineEvents).map fun event =>
      if event.taskId = some task then { event with taskId := none } else event := by
  have hfirst : TableName.engineEvents ∉ emptiedFirst := by decide
  have hall : ∀ (doomed : ∀ table, Row table → Bool) (D : Tables),
      (∀ row, doomed .engineEvents row = false) →
      ((D .engineEvents).filter fun row =>
        !(doomed .engineEvents row || cascades schema D doomed .engineEvents row)) =
        D .engineEvents := by
    intro doomed D hdoomed
    refine List.filter_eq_self.mpr fun row _ => ?_
    rw [hdoomed]
    rfl
  rw [deleteTasks, delete, hall _ _ (fun row => theTask_of_ne (by decide) row),
    swept_of_notMem _ _ hfirst]
  refine List.map_congr_left fun event hevent => ?_
  have hhits := hits_tasks task h .engineEvents
    (.setNull fun event => { event with taskId := none }) (List.mem_singleton_self _) hevent
  show (if hits _ _ _ event = true then _ else _) = _
  rw [hhits]
  simp only [decide_eq_true_iff]
  rfl

/-- **The last statement** leaves what is to be left.  The statements before it have emptied the
tables one by one; this one removes the task and, by cascades, what still refers to it. -/
theorem deleteTasks_eq (h : ForeignKeys schema db) :
    deleteTasks task db = withoutTask task db := by
  funext table
  cases table
  case engineEvents => exact deleteTasks_engineEvents h
  case taskRuntime | taskConnections | taskMembers | pendingIgnorePolicies =>
    exact deleteTasks_of_cascade h rfl (by decide) (by decide) (by decide)
  case tasks =>
    rw [deleteTasks, delete_apply fun ref href => absurd href List.not_mem_nil,
      swept_of_notMem _ _ (by decide)]
    refine List.filter_congr fun row _ => ?_
    rw [theTask_tasks]
    rfl
  case schemaMigrations =>
    rw [deleteTasks_of_noAction (by decide) (by decide), swept_of_notMem _ _ (by decide)]
    exact (List.filter_eq_self.mpr fun row _ => rfl).symm
  all_goals
    rw [deleteTasks_of_noAction (by decide) (by decide), swept_apply]
    rfl

/-! ## What is left

Deleting too much would be worse than deleting too little.  The rows of every other task are the
same afterwards, in the same order, in every table. -/

theorem mem_withoutTask {table : TableName} (hne : table ≠ .engineEvents) {row : Row table} :
    row ∈ withoutTask task db table ↔ row ∈ db table ∧ ¬ Belongs db task table row = true := by
  cases table
  case engineEvents => exact absurd rfl hne
  all_goals
    refine List.mem_filter.trans (and_congr_right fun _ => ?_)
    rw [Bool.not_eq_true', Bool.not_eq_true]

theorem foreignKeys_withoutTask (task : Bytes) (h : ForeignKeys schema db) :
    ForeignKeys schema (withoutTask task db) := by
  intro table ref href row hrow hbound
  have hparents : ∀ child, ∀ ref ∈ schema.references child, ref.parent ≠ .engineEvents := by decide
  by_cases hevents : table = .engineEvents
  · subst hevents
    obtain rfl := List.mem_singleton.mp href
    obtain ⟨event, hevent, rfl⟩ := List.mem_map.mp hrow
    by_cases htask : event.taskId = some task
    · rw [if_pos htask] at hbound
      cases hbound
    · rw [if_neg htask] at hbound ⊢
      obtain ⟨p, hp, hrefers⟩ := h .engineEvents _ href event hevent hbound
      refine ⟨p, (mem_withoutTask (hparents _ _ href)).mpr ⟨hp, fun hbelongs => htask ?_⟩, hrefers⟩
      exact (belongs_iff (by decide)).mp (belongs_of_refers href hp hrefers hbelongs)
  · obtain ⟨hmem, hkeep⟩ := (mem_withoutTask hevents).mp hrow
    obtain ⟨p, hp, hrefers⟩ := h table ref href row hmem hbound
    exact ⟨p, (mem_withoutTask (hparents _ _ href)).mpr
      ⟨hp, fun hbelongs => hkeep (belongs_of_refers href hp hrefers hbelongs)⟩, hrefers⟩

theorem valid_withoutTask (task : Bytes) (h : Valid schema db) :
    Valid schema (withoutTask task db) := by
  refine ⟨fun table => ?_, foreignKeys_withoutTask task h.foreignKeys⟩
  have hkeys := h.keys table
  cases table
  case engineEvents =>
    refine List.pairwise_map.mpr (hkeys.imp fun {a b} hab => ?_)
    have hid : ∀ event : EngineEventRow, (if event.taskId = some task then
        { event with taskId := none } else event).eventId = event.eventId := by
      intro event
      split <;> rfl
    show decide (_ = _) = false
    rw [hid, hid]
    exact hab
  all_goals exact hkeys.filter _

/-- No row belongs to two tasks. -/
theorem Belongs.unique (h : Valid schema db) {table : TableName} {row : Row table} {other : Bytes}
    (htask : Belongs db task table row = true) (hother : Belongs db other table row = true) :
    task = other := by
  by_cases hne : table = .transferChunks
  · subst hne
    obtain ⟨a, ha, haid, hatask⟩ := belongs_chunk_iff.mp htask
    obtain ⟨b, hb, hbid, hbtask⟩ := belongs_chunk_iff.mp hother
    obtain rfl : a = b :=
      h.eq_of_sameKey sameKey_comm ha hb (sameValue_iff.mpr ⟨_, haid, hbid⟩)
    rw [← hatask, hbtask]
  · rw [belongs_iff hne] at htask hother
    exact Option.some.inj (htask.symm.trans hother)

/-- No row that is left belongs to the task. -/
theorem not_belongs_withoutTask {table : TableName} {row : Row table}
    (hrow : row ∈ withoutTask task db table) :
    Belongs db task table row = false ∧ Belongs (withoutTask task db) task table row = false := by
  by_cases hevents : table = .engineEvents
  · subst hevents
    have hother : taskColumn .engineEvents row ≠ some task := by
      obtain ⟨event, -, rfl⟩ := List.mem_map.mp hrow
      by_cases htask : event.taskId = some task
      · rw [if_pos htask]
        rintro ⟨⟩
      · rw [if_neg htask]
        exact htask
    exact ⟨Bool.eq_false_iff.mpr fun h => hother ((belongs_iff (by decide)).mp h),
      Bool.eq_false_iff.mpr fun h => hother ((belongs_iff (by decide)).mp h)⟩
  obtain ⟨-, hother⟩ := (mem_withoutTask hevents).mp hrow
  refine ⟨Bool.eq_false_iff.mpr hother, Bool.eq_false_iff.mpr fun h => hother ?_⟩
  by_cases hchunks : table = .transferChunks
  · subst hchunks
    obtain ⟨transfer, htransfer, hkey⟩ := belongs_chunk_iff.mp h
    exact belongs_chunk_iff.mpr ⟨transfer, ((mem_withoutTask (by decide)).mp htransfer).1, hkey⟩
  · exact (belongs_iff hchunks).mpr ((belongs_iff hchunks).mp h)

/-- The transfers of the others are still there. -/
theorem belongs_withoutTask {table : TableName} {row : Row table} {other : Bytes}
    (hother : other ≠ task) :
    Belongs (withoutTask task db) other table row = Belongs db other table row := by
  by_cases hne : table = .transferChunks
  · subst hne
    rw [Bool.eq_iff_iff, belongs_chunk_iff, belongs_chunk_iff]
    refine exists_congr fun transfer => ?_
    rw [mem_withoutTask (by decide), belongs_iff (by decide)]
    refine ⟨fun hin => ⟨hin.1.1, hin.2⟩, fun hin => ⟨⟨hin.1, fun htask => hother ?_⟩, hin.2⟩⟩
    rw [← hin.2.2]
    exact Option.some.inj htask
  · rw [Bool.eq_iff_iff, belongs_iff hne, belongs_iff hne]

/-- The rows of the others stay as they are. -/
theorem filter_withoutTask (h : Valid schema db) {other : Bytes} (hother : other ≠ task)
    (table : TableName) :
    (withoutTask task db table).filter (Belongs (withoutTask task db) other table) =
      (db table).filter (Belongs db other table) := by
  rw [show Belongs (withoutTask task db) other table = Belongs db other table from
    funext fun _ => belongs_withoutTask hother]
  have hfilter : ((db table).filter fun row => !Belongs db task table row).filter
      (Belongs db other table) = (db table).filter (Belongs db other table) := by
    rw [List.filter_filter]
    refine List.filter_congr fun row _ => ?_
    cases htheirs : Belongs db other table row with
    | false => rfl
    | true =>
      cases hours : Belongs db task table row with
      | false => rfl
      | true => exact absurd (Belongs.unique h hours htheirs).symm hother
  cases table
  case engineEvents =>
    have hevent : ∀ event : EngineEventRow, event.taskId = some other →
        (if event.taskId = some task then { event with taskId := none } else event) = event :=
      fun event hevent => if_neg fun htask =>
        hother (Option.some.inj (hevent.symm.trans htask))
    rw [show withoutTask task db .engineEvents = (db .engineEvents).map fun event =>
      if event.taskId = some task then { event with taskId := none } else event from rfl,
      List.filter_map]
    rw [show (db .engineEvents).filter (Belongs db other .engineEvents ∘ fun event =>
        if event.taskId = some task then { event with taskId := none } else event) =
        (db .engineEvents).filter (Belongs db other .engineEvents) from
      List.filter_congr fun event _ => ?_]
    · refine List.map_congr_left (fun event hmem => hevent event ?_) |>.trans (List.map_id _)
      exact (belongs_iff (by decide)).mp (List.mem_filter.mp hmem).2
    · rw [Function.comp_apply]
      by_cases htask : event.taskId = some task
      · rw [if_pos htask, Bool.eq_iff_iff, belongs_iff (by decide), belongs_iff (by decide)]
        exact iff_of_false (by rintro ⟨⟩) fun htheirs =>
          hother (Option.some.inj (htheirs.symm.trans htask))
      · rw [if_neg htask]
  all_goals exact hfilter

/-! ## The number of rows -/

/-- How many rows the last statement selects. -/
def taskCount (task : Bytes) (db : Tables) : Nat :=
  ((db .tasks).filter fun row => row.taskId = some task).length

/-- The transaction, between its ends. -/
theorem deleteRows_eq (task : Bytes) (h : ForeignKeys schema db) : deleteRows task db =
    if taskCount task db ≠ 1 then .error (.invalidArgument "task does not exist")
    else .ok ((), withoutTask task db) := by
  obtain ⟨n, hn⟩ := runDeletions_emptied task h
  have hvalid := foreignKeys_withoutTask task h
  have hlast : (Deletion.ofTask .tasks task).run (swept task emptiedFirst db) =
      .ok (taskCount task db, withoutTask task db) := by
    rw [← deleteTasks_eq h, deleteTasks] at hvalid ⊢
    show (execute schema _ (delete schema (theTask task)) (swept task emptiedFirst db)).map _ = _
    rw [execute, if_pos hvalid, taskCount,
      ← swept_of_notMem task db (show TableName.tasks ∉ emptiedFirst by decide)]
    rfl
  rw [deleteRows, hn, runDeletions, hlast]
  rfl

theorem taskCount_le_one (h : Valid schema db) (task : Bytes) : taskCount task db ≤ 1 := by
  have hkeys := (h.keys .tasks).filter fun row => decide (row.taskId = some task)
  have htask : ∀ row ∈ (db .tasks).filter fun row => row.taskId = some task,
      row.taskId = some task := fun row hrow => of_decide_eq_true (List.mem_filter.mp hrow).2
  rw [taskCount]
  cases hrows : (db .tasks).filter fun row => row.taskId = some task with
  | nil => exact Nat.zero_le 1
  | cons a rest =>
    cases rest with
    | nil => exact Nat.le_refl 1
    | cons b rest =>
      rw [hrows] at hkeys htask
      have hdiffer := List.rel_of_pairwise_cons hkeys (List.mem_cons_self (l := rest))
      have hsame : sameKey .tasks a b = true := sameValue_iff.mpr
        ⟨task, htask a (List.mem_cons_self ..), htask b (List.mem_cons_of_mem a List.mem_cons_self)⟩
      exact absurd (hdiffer.symm.trans hsame) Bool.false_ne_true

/-- A task that is found has one row. -/
theorem findTask_eq_some_iff (h : Valid schema db) {taskId : Bytes} :
    (∃ definition, db.findTask taskId = .ok (some definition)) ↔
      taskId ≠ [] ∧ taskCount (boundText taskId) db = 1 := by
  have hle := taskCount_le_one h (boundText taskId)
  rw [Tables.findTask]
  by_cases hempty : taskId = []
  · rw [if_pos hempty]
    exact iff_of_false (by rintro ⟨_, ⟨⟩⟩) fun h' => h'.1 hempty
  rw [if_neg hempty, and_iff_right hempty]
  cases hfind : (db .tasks).find? fun row => row.taskId = some (boundText taskId) with
  | none =>
    refine iff_of_false (by rintro ⟨_, ⟨⟩⟩) fun hone => ?_
    have hnil : (db .tasks).filter (fun row => row.taskId = some (boundText taskId)) = [] :=
      List.filter_eq_nil_iff.mpr fun row hrow => List.find?_eq_none.mp hfind row hrow
    rw [taskCount, hnil] at hone
    cases hone
  | some row =>
    refine iff_of_true ⟨_, rfl⟩ ?_
    have hpos : 0 < taskCount (boundText taskId) db :=
      List.length_pos_of_mem (List.mem_filter.mpr
        ⟨List.mem_of_find?_eq_some hfind,
        (List.find?_eq_some_iff_append.mp hfind).1⟩)
    omega

/-! ## The deletion -/

/-- Nothing fails: the storage that theorems about what a call achieves start from. -/
def noFault : Nat → Option Error := fun _ => none

/-- A transaction of statements that the storage does not fail. -/
theorem inTransaction_noFault {σ α : Type} {m : Exec (Connection σ) Error α}
    {f : σ → Except Error (α × σ)} (hm : Implements noFault m f) {c : Connection σ}
    (hidle : c.Idle) :
    (∀ a db', f c.db = .ok (a, db') →
      (inTransaction noFault m c).1 = .ok a ∧ (inTransaction noFault m c).2.db = db' ∧
        (inTransaction noFault m c).2.Idle) ∧
    (∀ e, f c.db = .error e →
      (inTransaction noFault m c).1 = .error e ∧ (inTransaction noFault m c).2.db = c.db ∧
        (inTransaction noFault m c).2.Idle) := by
  rcases hrun : inTransaction noFault m c with ⟨e' | a', c'⟩
  · obtain ⟨hdb, hidle', hcause⟩ := hm.inTransaction_error hidle hrun
    have hf := hcause.resolve_left (by rintro ⟨_, ⟨⟩⟩)
    refine ⟨fun a db' hok => ?_, fun e he => ?_⟩
    · rw [hf] at hok
      cases hok
    · rw [hf] at he
      cases he
      exact ⟨rfl, hdb, hidle'⟩
  · obtain ⟨hf, hidle'⟩ := hm.inTransaction_ok hrun
    refine ⟨fun a db' hok => ?_, fun e he => ?_⟩
    · rw [hf] at hok
      cases hok
      exact ⟨rfl, rfl, hidle'⟩
    · rw [hf] at he
      cases he

/-- **The deletion of a task**, for every database that its schema allows.

A task that `FindTask` finds goes, with its rows in every table; an event of it stays and has no
task then.  The rows of every other task are what they were, and so is every row that belongs to
none.  A task that is not there is an exception.  Whatever the storage does, an exception leaves all
tables as they were. -/
theorem delete_task (db : Tables) (executed : Nat) (taskId : Bytes) (h : Valid schema db) :
    let before : Connection Tables := ⟨db, none, executed⟩
    let run := deleteTask noFault taskId before
    let after := run.2.db
    ((∃ definition, db.findTask taskId = .ok (some definition)) →
      run.1 = .ok () ∧ run.2.Idle ∧ Valid schema after ∧
      (∀ table, ∀ row ∈ after table, Belongs db (boundText taskId) table row = false ∧
        Belongs after (boundText taskId) table row = false) ∧
      (∀ other, other ≠ boundText taskId → ∀ table,
        (after table).filter (Belongs after other table) =
          (db table).filter (Belongs db other table)) ∧
      (∀ table, table ≠ .engineEvents →
        after table = (db table).filter fun row => !Belongs db (boundText taskId) table row) ∧
      after .engineEvents = (db .engineEvents).map fun event =>
        if event.taskId = some (boundText taskId) then { event with taskId := none } else event) ∧
    ((¬ ∃ definition, db.findTask taskId = .ok (some definition)) →
      (∃ e, run.1 = .error e) ∧ run.2.Idle ∧ after = db) ∧
    (∀ fault e, (deleteTask fault taskId before).1 = .error e →
      (deleteTask fault taskId before).2.db = db) := by
  intro before run after
  have hrows := deleteRows_eq (boundText taskId) h.foreignKeys
  have hidle : before.Idle := rfl
  -- an empty identifier is refused before the transaction begins
  by_cases hempty : taskId = []
  · have hraise : ∀ fault, deleteTask fault taskId before =
        (.error (.invalidArgument "task id is required"), before) := by
      intro fault
      rw [deleteTask, if_pos hempty]
      rfl
    refine ⟨fun hfound => ?_, fun _ => ?_, fun fault e _ => ?_⟩
    · exact absurd hempty ((findTask_eq_some_iff h).mp hfound).1
    · have hrun : run = _ := hraise noFault
      exact ⟨⟨_, congrArg Prod.fst hrun⟩, congrArg (Connection.saved ∘ Prod.snd) hrun,
        congrArg (Connection.db ∘ Prod.snd) hrun⟩
    · rw [hraise fault]
  have hstart : ∀ fault, deleteTask fault taskId = inTransaction fault (do
      let changes ← deleteAll fault (deletions (boundText taskId)) 0
      when (changes ≠ 1) (raise (.invalidArgument "task does not exist"))) :=
    fun fault => if_neg hempty
  obtain ⟨hok, herror⟩ := inTransaction_noFault (implements_deleteRows (boundText taskId)) hidle
  rw [← hstart] at hok herror
  rw [findTask_eq_some_iff h, and_iff_right hempty]
  -- the number of changed rows tells whether the task existed, when its rows are gone already
  refine ⟨fun hone => ?_, fun hnone => ?_, fun fault e he => ?_⟩
  · rw [if_neg (not_not.mpr hone)] at hrows
    obtain ⟨hreturn, hafter, hidle'⟩ := hok () _ hrows
    rw [show after = withoutTask (boundText taskId) db from hafter]
    refine ⟨hreturn, hidle', valid_withoutTask _ h, fun _ _ hrow => not_belongs_withoutTask hrow,
      fun other hother table => filter_withoutTask h hother table, fun table hne => ?_, rfl⟩
    cases table
    case engineEvents => exact absurd rfl hne
    all_goals rfl
  · rw [if_pos hnone] at hrows
    obtain ⟨hthrow, hafter, hidle'⟩ := herror _ hrows
    exact ⟨⟨_, hthrow⟩, hidle', hafter⟩
  · rcases hrun : deleteTask fault taskId before with ⟨e' | a, c'⟩
    · rw [hstart] at hrun
      exact ((implements_deleteRows _).inTransaction_error hidle hrun).1
    · rw [hrun] at he
      cases he

/-- Two tasks.  Each has a transfer with a chunk, a revision of its rules that its state points at,
a member and an event. -/
def twoTasks : Tables
  | .tasks => [⟨some [97], [], [], [47], 1⟩, ⟨some [98], [], [], [48], 1⟩]
  | .transfers => [⟨some [1], [97], [], [], [], [], none, 1, 1, []⟩,
      ⟨some [2], [98], [], [], [], [], none, 1, 1, []⟩]
  | .transferChunks => [⟨[1], 0, true⟩, ⟨[2], 0, true⟩]
  | .ignorePolicyRevisions => [⟨[97], 1, [], [], [], 1⟩, ⟨[98], 1, [], [], [], 1⟩]
  | .ignorePolicyState => [⟨some [97], 1, [], 1⟩, ⟨some [98], 1, [], 1⟩]
  | .taskMembers => [⟨[97], [100], [], [], 1, false⟩, ⟨[98], [100], [], [], 1, false⟩]
  | .engineEvents => [⟨1, some [97], [], [], 1⟩, ⟨2, some [98], [], [], 1⟩]
  | .schemaMigrations => [⟨8, 1⟩]
  | _ => []

theorem delete_task_first :
    Valid schema twoTasks ∧ (deleteTask noFault [97] ⟨twoTasks, none, 0⟩).1 = .ok () ∧
      (deleteTask noFault [97] ⟨twoTasks, none, 0⟩).2.db .transferChunks = [⟨[2], 0, true⟩] ∧
      (deleteTask noFault [97] ⟨twoTasks, none, 0⟩).2.db .engineEvents =
        [⟨1, none, [], [], 1⟩, ⟨2, some [98], [], [], 1⟩] := by
  have hvalid : Valid schema twoTasks := ⟨by decide, by decide⟩
  obtain ⟨hreturn, -, -, -, -, hrows, hevents⟩ :=
    (delete_task twoTasks 0 [97] hvalid).1 ⟨⟨[97], [], [], [47]⟩, by decide⟩
  exact ⟨hvalid, hreturn, (hrows .transferChunks (by decide)).trans (by decide),
    hevents.trans (by decide)⟩

end VeritasSync
