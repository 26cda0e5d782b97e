import VeritasSync.Storage.Integrity

/-!
# What a call leaves alone

The rows of all tasks are in the same tables.  A call names a task, or a transfer or a conflict that
belongs to one; the rows of the other tasks are none of its business.

Two promises are made to a task by the interface of the database, and neither is a constraint that
SQLite could check.  One is that calls for other tasks leave it alone.  The other is that some
things are never taken back: a version does not change its parent, a revision of the rules does not
disappear, a clock does not go back.  Both are shown for a single statement, then for a call, then
for a run.

## What is here

* `Statement.Touches`, `Call.Touches` — the tasks of a call.
* `SameRows` — the rows of a task, in every table, are the same and in the same order.
* `Call.sameRows` — a call that does not touch a task leaves its rows alone.
* `Durable`, `Call.durable` — lineage, revisions, events and clocks are never taken back.
* `database_runs` — **all of it, in every run of calls on a storage that can fail**.
-/

set_option autoImplicit false

namespace VeritasSync

namespace Storage

open Exec Relational Transaction

variable {db db' : Tables} {task : Bytes}

/-! ## The task of a call

Most functions have the task among their arguments.  Those about a transfer or a conflict have not;
they touch the task whose transfer or conflict that is, and it takes the tables to say which. -/

/-- The transfer is one of the task. -/
def OwnsTransfer (db : Tables) (task : Bytes) (transferId : TransferId) : Prop :=
  ∃ row ∈ db .transfers, row.transferId = some transferId.val ∧ row.taskId = task

/-- A call touches the task that it names, or the task of the conflict or of the transfer that it
names. -/
def Statement.Touches (db : Tables) (task : Bytes) : Statement → Prop
  | .createTask _ _ definition => boundText definition.taskId = task
  | .updateTaskNetworkState taskId _ _ => boundText taskId = task
  | .setTaskEnabled taskId _ => boundText taskId = task
  | .updateTaskRuntime taskId _ _ _ _ => boundText taskId = task
  | .configureTaskConnection connection => boundText connection.taskId = task
  | .upsertTaskMember member => boundText member.taskId = task
  | .upsertFileRecord record => boundText record.taskId = task
  | .recordVersionLineage lineage => boundText lineage.taskId = task
  | .advanceLogicalClock taskId _ => boundText taskId = task
  | .recordConflict conflict => boundText conflict.taskId = task
  | .updateConflictState conflictId _ =>
    ∃ row ∈ db .conflicts, row.conflictId = some (boundText conflictId) ∧ row.taskId = task
  | .recordEngineEvent event => event.taskId.map boundText = some task
  | .savePendingIgnorePolicy policy => boundText policy.taskId = task
  | .clearPendingIgnorePolicy taskId => boundText taskId = task
  | .createTransfer transfer => boundText transfer.taskId = task
  | .updateTransferState transferId _ _ _ => OwnsTransfer db task transferId

/-- One of the calls of a transaction touches the task. -/
def TouchedBy (task : Bytes) : List Statement → Tables → Prop
  | [], _ => False
  | s :: rest, db =>
    s.Touches db task ∨ ∃ db', s.run db = .ok ((), db') ∧ TouchedBy task rest db'

@[inherit_doc Statement.Touches]
def Call.Touches (db : Tables) (task : Bytes) : Call → Prop
  | .one s => s.Touches db task
  | .deleteTask taskId => boundText taskId = task
  | .recordIgnorePolicyRevision revision => boundText revision.taskId = task
  | .markTransferChunksCompleted transferId _ _ => OwnsTransfer db task transferId
  | .inTransaction body _ => TouchedBy task body db

/-! ## The rows of a task -/

/-- The rows of the task are the same. -/
def SameRows (task : Bytes) (db db' : Tables) : Prop :=
  ∀ table, (db' table).filter (Belongs db' task table) = (db table).filter (Belongs db task table)

theorem SameRows.refl (task : Bytes) (db : Tables) : SameRows task db db := fun _ => rfl

theorem SameRows.trans {db'' : Tables} (h : SameRows task db db') (h' : SameRows task db' db'') :
    SameRows task db db'' := fun table => (h' table).trans (h table)

theorem belongs_congr (h : db' .transfers = db .transfers) (table : TableName) :
    Belongs db' task table = Belongs db task table := by
  funext row
  cases table
  case transferChunks => rw [Belongs, Belongs, h]
  all_goals rfl

theorem belongs_false {table : TableName} (hne : table ≠ .transferChunks) {row : Row table}
    (h : taskColumn table row ≠ some task) : Belongs db task table row = false :=
  Bool.eq_false_iff.mpr fun hbelongs => h ((belongs_iff hne).mp hbelongs)

/-- A change of one table, of rows that are not the task's. -/
theorem sameRows_of_table {table : TableName} (hne : table ≠ .transfers)
    (hother : ∀ t, t ≠ table → db' t = db t)
    (hrows : (db' table).filter (Belongs db task table) =
      (db table).filter (Belongs db task table)) : SameRows task db db' := by
  intro t
  rw [belongs_congr (hother .transfers hne.symm)]
  by_cases ht : t = table
  · subst ht
    exact hrows
  · rw [hother t ht]

theorem filter_map_ite {α : Type} {l : List α} {p selects : α → Bool} {change : α → α}
    (h : ∀ a ∈ l, selects a = true → p a = false ∧ p (change a) = false) :
    (l.map fun a => if selects a then change a else a).filter p = l.filter p := by
  induction l with
  | nil => rfl
  | cons a rest ih =>
    have hrest := ih fun b hb => h b (List.mem_cons_of_mem _ hb)
    rw [List.map_cons, List.filter_cons, List.filter_cons, hrest]
    by_cases hselects : selects a = true
    · obtain ⟨ha, hchange⟩ := h a List.mem_cons_self hselects
      rw [if_pos hselects, hchange, ha]
      rfl
    · rw [if_neg hselects]

section Statements

variable {table : TableName} {row : Row table} {change : Row table → Row table}
  {selects : Row table → Bool}

theorem sameRows_insertRow (htransfers : table ≠ .transfers) (hchunks : table ≠ .transferChunks)
    (h : taskColumn table row ≠ some task) : SameRows task db (insertRow table row db) := by
  refine sameRows_of_table htransfers (fun t ht => insertRow_of_ne ht) ?_
  rw [insertRow_self, List.filter_append, List.filter_cons_of_neg, List.filter_nil, List.append_nil]
  rw [belongs_false hchunks h]
  exact Bool.false_ne_true

theorem filter_upsertRow {p : Row table → Bool} (hrow : p row = false)
    (hchange : ∀ old ∈ db table, sameKey table row old = true →
      p old = false ∧ p (change old) = false) :
    (upsertRow schema table row change db table).filter p = (db table).filter p := by
  rw [upsertRow, Function.update_self]
  split
  · exact filter_map_ite hchange
  · rw [List.filter_append, List.filter_cons_of_neg (by rw [hrow]; exact Bool.false_ne_true),
      List.filter_nil, List.append_nil]

theorem sameRows_upsertRow (htransfers : table ≠ .transfers) (hchunks : table ≠ .transferChunks)
    (h : taskColumn table row ≠ some task)
    (hchange : ∀ old, sameKey table row old = true → taskColumn table old = taskColumn table row ∧
      taskColumn table (change old) = taskColumn table old) :
    SameRows task db (upsertRow schema table row change db) := by
  refine sameRows_of_table htransfers (fun t ht => upsertRow_of_ne ht)
    (filter_upsertRow (belongs_false hchunks h) fun old _ hkey => ?_)
  obtain ⟨hold, hnew⟩ := hchange old hkey
  exact ⟨belongs_false hchunks (hold ▸ h), belongs_false hchunks (hnew ▸ hold ▸ h)⟩

theorem sameRows_updateRows (htransfers : table ≠ .transfers) (hchunks : table ≠ .transferChunks)
    (h : ∀ old ∈ db table, selects old = true → taskColumn table old ≠ some task)
    (hchange : ∀ old, taskColumn table (change old) = taskColumn table old) :
    SameRows task db (updateRows table selects change db) := by
  refine sameRows_of_table htransfers (fun t ht => updateRows_of_ne ht) ?_
  rw [updateRows_self]
  refine filter_map_ite fun old hold hselects => ?_
  have hother := h old hold hselects
  exact ⟨belongs_false hchunks hother, belongs_false hchunks (hchange old ▸ hother)⟩

end Statements

/-! ## Transfers -/

theorem owns_iff {transferId : TransferId} {chunkIndex : Int} {completed : Bool} :
    Belongs db task .transferChunks ⟨transferId.val, chunkIndex, completed⟩ = true ↔
      OwnsTransfer db task transferId := belongs_chunk_iff

/-- A transfer of another task. -/
theorem sameRows_insertTransfer {row : TransferRow} (h : row.taskId ≠ task) :
    SameRows task db (insertRow .transfers row db) := by
  have htransfer : Belongs db task .transfers row = false :=
    belongs_false (by decide) fun htask => h (Option.some.inj htask)
  intro table
  by_cases ht : table = .transfers
  · subst ht
    rw [insertRow_self, List.filter_append]
    show (db .transfers).filter (Belongs db task .transfers) ++
      [row].filter (Belongs db task .transfers) = _
    rw [List.filter_cons_of_neg (by rw [htransfer]; exact Bool.false_ne_true), List.filter_nil,
      List.append_nil]
  rw [insertRow_of_ne ht]
  by_cases hchunks : table = .transferChunks
  · subst hchunks
    refine List.filter_congr fun chunk _ => ?_
    rw [Belongs, insertRow_self, List.any_append, List.any_cons, List.any_nil, Bool.or_false,
      decide_eq_false fun hrow => h hrow.2, Bool.or_false]
    rfl
  · refine List.filter_congr fun row _ => Bool.eq_iff_iff.mpr ?_
    rw [belongs_iff hchunks, belongs_iff hchunks]

/-- A change of a transfer of another task. -/
theorem sameRows_updateTransfer {transferId : TransferId} {change : TransferRow → TransferRow}
    (hid : ∀ row, (change row).transferId = row.transferId)
    (htask : ∀ row, (change row).taskId = row.taskId) (h : ¬ OwnsTransfer db task transferId) :
    SameRows task db (updateRows .transfers (fun row => row.transferId = some transferId.val)
      change db) := by
  set selects := fun row : TransferRow => decide (row.transferId = some transferId.val)
  have hside : ∀ row : TransferRow, (if selects row then change row else row).transferId =
      row.transferId ∧ (if selects row then change row else row).taskId = row.taskId := by
    intro row
    split
    · exact ⟨hid row, htask row⟩
    · exact ⟨rfl, rfl⟩
  intro table
  by_cases ht : table = .transfers
  · subst ht
    rw [updateRows_self]
    show ((db .transfers).map _).filter (Belongs db task .transfers) = _
    refine filter_map_ite fun row hrow hselects => ?_
    have hother : row.taskId ≠ task := fun heq => h ⟨row, hrow, of_decide_eq_true hselects, heq⟩
    exact ⟨belongs_false (by decide) fun heq => hother (Option.some.inj heq),
      belongs_false (by decide) fun heq => hother ((htask row).symm.trans (Option.some.inj heq))⟩
  rw [updateRows_of_ne ht]
  by_cases hchunks : table = .transferChunks
  · subst hchunks
    refine List.filter_congr fun chunk _ => ?_
    rw [Belongs, Belongs, updateRows_self, List.any_map]
    refine congrArg (List.any (db .transfers)) (funext fun row => ?_)
    rw [Function.comp_apply, (hside row).1, (hside row).2]
  · refine List.filter_congr fun row _ => Bool.eq_iff_iff.mpr ?_
    rw [belongs_iff hchunks, belongs_iff hchunks]

theorem sameRows_markChunk {transferId : TransferId} {chunkIndex : UInt64} {u : Unit}
    (h : ¬ OwnsTransfer db task transferId)
    (hrun : markChunk transferId chunkIndex db = .ok (u, db')) :
    SameRows task db db' ∧ db' .transfers = db .transfers := by
  obtain ⟨-, -, rfl⟩ := upsert_ok hrun
  have hchunk : ∀ index completed, Belongs db task .transferChunks
      ⟨transferId.val, index, completed⟩ = false :=
    fun index completed => Bool.eq_false_iff.mpr fun hbelongs => h (owns_iff.mp hbelongs)
  refine ⟨sameRows_of_table (by decide) (fun t ht => upsertRow_of_ne ht)
    (filter_upsertRow (hchunk _ _) fun old _ hkey => ?_), upsertRow_of_ne (by decide)⟩
  have hid : transferId.val = old.transferId := (of_decide_eq_true hkey).1
  refine ⟨?_, ?_⟩
  · have hold := hchunk old.chunkIndex old.completed
    rw [hid] at hold
    exact hold
  · have hnew := hchunk old.chunkIndex true
    rw [hid] at hnew
    exact hnew

/-! ## The functions -/

section Functions

variable {u : Unit}

theorem sameRows_updateRuntime {what : String} {taskId : Bytes}
    {change : TaskRuntimeRow → TaskRuntimeRow} (hid : ∀ row, (change row).taskId = row.taskId)
    (hother : boundText taskId ≠ task)
    (h : updateRuntime what taskId change db = .ok (u, db')) : SameRows task db db' := by
  obtain ⟨-, -, -, rfl⟩ := updateOne_ok h
  refine sameRows_updateRows (by decide) (by decide) (fun old _ hselects => ?_) hid
  have htask : old.taskId = some (boundText taskId) := of_decide_eq_true hselects
  exact fun heq => hother (Option.some.inj (htask.symm.trans heq))

theorem sameRows_insertTask {createdAtMs : Int} {definition : TaskDefinition}
    (hother : boundText definition.taskId ≠ task)
    (h : insertTask createdAtMs definition db = .ok (u, db')) : SameRows task db db' := by
  obtain ⟨-, -, -, -, rfl⟩ := insertTask_ok h
  have htask : taskColumn .tasks (definition.row createdAtMs) ≠ some task :=
    fun heq => hother (Option.some.inj heq)
  have hruntime : taskColumn .taskRuntime definition.runtimeRow ≠ some task :=
    fun heq => hother (Option.some.inj heq)
  exact (sameRows_insertRow (by decide) (by decide) htask).trans
    (sameRows_insertRow (by decide) (by decide) hruntime)

theorem sameRows_clearPending {taskId : Bytes} (hother : boundText taskId ≠ task) :
    SameRows task db (delete schema (onTable .pendingIgnorePolicies fun row =>
      row.taskId = some (boundText taskId)) db) := by
  have hrows := delete_pending db fun row => row.taskId = some (boundText taskId)
  have hne : TableName.pendingIgnorePolicies ≠ .transfers := by decide
  refine sameRows_of_table hne (fun t ht => ?_) ?_
  · rw [hrows]
    exact List.filter_eq_self.mpr fun row _ => by rw [onTable_of_ne ht]; rfl
  · rw [hrows, List.filter_filter]
    refine List.filter_congr fun row _ => ?_
    rw [onTable_self]
    by_cases hrow : row.taskId = some (boundText taskId)
    · have hcolumn : taskColumn .pendingIgnorePolicies row ≠ some task :=
        fun heq => hother (Option.some.inj (hrow.symm.trans heq))
      rw [belongs_false (by decide) hcolumn]
      rfl
    · rw [decide_eq_false hrow]
      exact Bool.and_true _

/-- A key that starts with the task. -/
theorem taskColumn_of_sameValue {table : TableName} {row old : Row table}
    (h : sameValue (taskColumn table row) (taskColumn table old) = true) :
    taskColumn table old = taskColumn table row := by
  obtain ⟨value, hrow, hold⟩ := sameValue_iff.mp h
  exact hold.trans hrow.symm

/-- **A function with one statement** leaves the rows of the other tasks alone.  Rows of other tasks
are told apart by their keys; the marks of chunks, which have no task, by the transfer they belong
to. -/
theorem Statement.sameRows (s : Statement) (htouches : ¬ s.Touches db task)
    (hwrite : s.write db = .ok (u, db')) : SameRows task db db' := by
  cases s with
  | createTask createdAtMs outside definition => exact sameRows_insertTask htouches hwrite
  | updateTaskNetworkState taskId networkStatus networkError =>
    refine sameRows_updateRuntime ?_ htouches hwrite
    exact fun _ => rfl
  | setTaskEnabled taskId enabled =>
    refine sameRows_updateRuntime ?_ htouches hwrite
    exact fun _ => rfl
  | updateTaskRuntime taskId status dirty lastScanAtMs lastError =>
    refine sameRows_updateRuntime ?_ htouches hwrite
    exact fun _ => rfl
  | configureTaskConnection connection =>
    obtain ⟨-, rfl⟩ := write_connection_eq hwrite
    -- an upsert that finds a row keeps its task: the task is a part of the key
    refine sameRows_upsertRow (by decide) (by decide)
      (fun heq => htouches (Option.some.inj heq)) fun old hkey => ⟨?_, rfl⟩
    exact taskColumn_of_sameValue hkey
  | upsertTaskMember member =>
    obtain ⟨-, rfl⟩ := write_member_eq hwrite
    refine sameRows_upsertRow (by decide) (by decide)
      (fun heq => htouches (Option.some.inj heq)) fun old hkey => ⟨?_, rfl⟩
    exact congrArg some (of_decide_eq_true hkey).1.symm
  | upsertFileRecord record =>
    obtain ⟨-, -, rfl⟩ := upsert_ok hwrite
    refine sameRows_upsertRow (by decide) (by decide)
      (fun heq => htouches (Option.some.inj heq)) fun old hkey => ⟨?_, rfl⟩
    exact congrArg some (of_decide_eq_true hkey).1.symm
  | recordVersionLineage lineage =>
    obtain ⟨existing, -, hrest⟩ := ok_of_bind hwrite
    cases existing with
    | some existing =>
      obtain ⟨-, hrest⟩ := unless_eq_ok.mp hrest
      cases hrest
      exact .refl task db
    | none =>
      obtain ⟨-, -, -, rfl⟩ := insert_ok hrest
      exact sameRows_insertRow (by decide) (by decide) fun heq => htouches (Option.some.inj heq)
  | advanceLogicalClock taskId observed =>
    obtain ⟨⟨n, db''⟩, hadvance, heq⟩ := ok_of_map hwrite
    cases heq
    obtain ⟨-, -, -, rfl⟩ := advanceClock_ok hadvance
    refine sameRows_upsertRow (by decide) (by decide)
      (fun heq => htouches (Option.some.inj heq)) fun old hkey => ⟨?_, rfl⟩
    exact taskColumn_of_sameValue hkey
  | recordConflict conflict =>
    obtain ⟨-, -, -, rfl⟩ := insert_ok hwrite
    exact sameRows_insertRow (by decide) (by decide) fun heq => htouches (Option.some.inj heq)
  | updateConflictState conflictId state =>
    obtain ⟨-, -, -, rfl⟩ := updateOne_ok hwrite
    refine sameRows_updateRows (by decide) (by decide)
      (fun old hold hselects heq => ?_) fun _ => rfl
    exact htouches ⟨old, hold, of_decide_eq_true hselects, Option.some.inj heq⟩
  | recordEngineEvent event =>
    rw [write] at hwrite
    split at hwrite
    · cases hwrite
    obtain ⟨-, -, -, rfl⟩ := insert_ok hwrite
    exact sameRows_insertRow (by decide) (by decide) htouches
  | savePendingIgnorePolicy policy =>
    obtain ⟨-, -, rfl⟩ := upsert_ok hwrite
    refine sameRows_upsertRow (by decide) (by decide)
      (fun heq => htouches (Option.some.inj heq)) fun old hkey => ⟨?_, rfl⟩
    exact taskColumn_of_sameValue hkey
  | clearPendingIgnorePolicy taskId =>
    obtain ⟨db'', hexecute, heq⟩ := ok_of_map hwrite
    cases heq
    obtain ⟨-, rfl⟩ := execute_eq_ok_iff.mp hexecute
    exact sameRows_clearPending htouches
  | createTransfer transfer =>
    obtain ⟨-, -, -, rfl⟩ := insert_ok hwrite
    exact sameRows_insertTransfer htouches
  | updateTransferState transferId state updatedAtMs errorCode =>
    obtain ⟨-, -, -, rfl⟩ := updateOne_ok hwrite
    exact sameRows_updateTransfer (fun _ => rfl) (fun _ => rfl) htouches

/-- The calls of a transaction. -/
theorem sameRows_body {body : List Statement} (htouches : ¬ TouchedBy task body db)
    (hrun : each Statement.run body db = .ok (u, db')) : SameRows task db db' := by
  induction body generalizing db with
  | nil =>
    cases hrun
    exact .refl task db'
  | cons s rest ih =>
    obtain ⟨db₁, hs, hrest⟩ := each_cons_ok hrun
    have hfirst := s.sameRows (fun hs' => htouches (.inl hs')) (Statement.run_ok hs).2
    exact hfirst.trans (ih (fun hrest' => htouches (.inr ⟨db₁, hs, hrest'⟩)) hrest)

/-- **Every call** leaves the rows of the other tasks alone.  This is what allows a view of one task
to be stable while others are worked on. -/
theorem Call.sameRows (call : Call) (h : Consistent db) (htouches : ¬ call.Touches db task)
    (hrun : call.run db = .ok (u, db')) : SameRows task db db' := by
  cases call with
  | one s => exact s.sameRows htouches (Statement.run_ok hrun).2
  | deleteTask taskId =>
    rw [run] at hrun
    split at hrun
    · cases hrun
    rw [deleteRows_eq _ h.valid.foreignKeys] at hrun
    split at hrun
    · cases hrun
    cases hrun
    exact filter_withoutTask h.valid fun heq => htouches heq.symm
  | recordIgnorePolicyRevision revision =>
    obtain ⟨_, -, hrest⟩ := ok_of_bind hrun
    obtain ⟨⟨number, db''⟩, hrows, heq⟩ := ok_of_map hrest
    cases heq
    obtain ⟨-, -, -, rfl⟩ := revisionRows_ok hrows
    have hrow : taskColumn .ignorePolicyRevisions (revision.row number) ≠ some task :=
      fun heq => htouches (Option.some.inj heq)
    refine (sameRows_insertRow (by decide) (by decide) hrow).trans ?_
    refine sameRows_upsertRow (by decide) (by decide)
      (fun heq => htouches (Option.some.inj heq)) fun old hkey => ⟨?_, rfl⟩
    exact taskColumn_of_sameValue hkey
  | markTransferChunksCompleted transferId chunkIndices updatedAtMs =>
    obtain ⟨_, -, hrest⟩ := ok_of_bind hrun
    obtain ⟨⟨u₁, db₁⟩, hmarks, htouch⟩ := ok_of_bind hrest
    have hmarked : SameRows task db db₁ ∧ db₁ .transfers = db .transfers := by
      refine each_invariant (I := fun db₂ => SameRows task db db₂ ∧ db₂ .transfers = db .transfers)
        (fun _ _ db₂ db₃ hmark hdb₂ => ?_) hmarks ⟨.refl task db, rfl⟩
      have howns : ¬ OwnsTransfer db₂ task transferId := by
        rw [OwnsTransfer, hdb₂.2]
        exact htouches
      obtain ⟨hsame, htransfers⟩ := sameRows_markChunk howns hmark
      exact ⟨hdb₂.1.trans hsame, htransfers.trans hdb₂.2⟩
    obtain ⟨-, -, -, rfl⟩ := updateOne_ok htouch
    refine hmarked.1.trans (sameRows_updateTransfer (fun _ => rfl) (fun _ => rfl) ?_)
    rw [OwnsTransfer, hmarked.2]
    exact htouches
  | inTransaction body thrown =>
    obtain ⟨⟨u₁, db₁⟩, hbody, hend⟩ := ok_of_bind hrun
    cases thrown with
    | none =>
      cases hend
      exact sameRows_body htouches hbody
    | some e => cases hend

end Functions

/-! ## What is never taken back -/

/-- What no call takes back but the deletion of the task: versions keep their parents, revisions
and events stay, and no clock goes back. -/
structure Durable (db db' : Tables) : Prop where
  lineage : ∀ row ∈ db .versionLineage, row ∈ db' .versionLineage
  revisions : ∀ row ∈ db .ignorePolicyRevisions, row ∈ db' .ignorePolicyRevisions
  events : ∀ row ∈ db .engineEvents, row ∈ db' .engineEvents
  clocks : ∀ row ∈ db .taskClocks, ∃ row' ∈ db' .taskClocks,
    row'.taskId = row.taskId ∧ row.logicalClock ≤ row'.logicalClock

theorem Durable.refl (db : Tables) : Durable db db :=
  ⟨fun _ h => h, fun _ h => h, fun _ h => h, fun row h => ⟨row, h, rfl, le_refl _⟩⟩

theorem Durable.trans {db'' : Tables} (h : Durable db db') (h' : Durable db' db'') :
    Durable db db'' := by
  refine ⟨fun row hrow => h'.lineage row (h.lineage row hrow),
    fun row hrow => h'.revisions row (h.revisions row hrow),
    fun row hrow => h'.events row (h.events row hrow), fun row hrow => ?_⟩
  obtain ⟨row₁, hrow₁, hid₁, hle₁⟩ := h.clocks row hrow
  obtain ⟨row₂, hrow₂, hid₂, hle₂⟩ := h'.clocks row₁ hrow₁
  exact ⟨row₂, hrow₂, hid₂.trans hid₁, le_trans hle₁ hle₂⟩

/-- A change of another table. -/
theorem durable_of_other {table : TableName} (hother : ∀ t, t ≠ table → db' t = db t)
    (htable : table ∉ [.versionLineage, .ignorePolicyRevisions, .engineEvents, .taskClocks]) :
    Durable db db' := by
  simp only [List.mem_cons, List.not_mem_nil, or_false, not_or] at htable
  obtain ⟨hlineage, hrevisions, hevents, hclocks⟩ := htable
  refine ⟨?_, ?_, ?_, ?_⟩
  · rw [hother _ (Ne.symm hlineage)]
    exact fun _ h => h
  · rw [hother _ (Ne.symm hrevisions)]
    exact fun _ h => h
  · rw [hother _ (Ne.symm hevents)]
    exact fun _ h => h
  · rw [hother _ (Ne.symm hclocks)]
    exact fun row h => ⟨row, h, rfl, le_refl _⟩

/-- A new row. -/
theorem durable_insertRow {table : TableName} {row : Row table} :
    Durable db (insertRow table row db) := by
  have hmem : ∀ t, ∀ other ∈ db t, other ∈ insertRow table row db t := by
    intro t other hother
    by_cases ht : t = table
    · subst ht
      rw [insertRow_self]
      exact List.mem_append_left _ hother
    · rw [insertRow_of_ne ht]
      exact hother
  exact ⟨hmem _, hmem _, hmem _, fun row hrow => ⟨row, hmem _ row hrow, rfl, le_refl _⟩⟩

section Durability

variable {u : Unit}

/-- The clock of a task is what its row says. -/
theorem Consistent.currentClock (h : Consistent db) {taskId : Bytes} {row : TaskClockRow}
    (hrow : row ∈ db .taskClocks) (htask : row.taskId = some (boundText taskId)) :
    Storage.currentClock taskId db = row.logicalClock := by
  rw [Storage.currentClock, h.valid.find?_eq sameKey_comm hrow (decide_eq_true htask)
    fun other hother => sameValue_iff.mpr ⟨_, of_decide_eq_true hother, htask⟩]
  rfl

/-- **The clock of a task only goes forward.**  Whatever clock is observed, and whoever calls it. -/
theorem durable_advanceClock (h : Consistent db) {taskId : Bytes} {observed : UInt64} {n : Nat}
    (hadvance : advanceClock taskId observed db = .ok (n, db')) : Durable db db' := by
  obtain ⟨hn, -, -, rfl⟩ := advanceClock_ok hadvance
  refine ⟨?_, ?_, ?_, fun row hrow => ?_⟩
  · rw [upsertRow_of_ne (by decide)]
    exact fun _ hrow => hrow
  · rw [upsertRow_of_ne (by decide)]
    exact fun _ hrow => hrow
  · rw [upsertRow_of_ne (by decide)]
    exact fun _ hrow => hrow
  · refine exists_upsertRow (p := fun row' : TaskClockRow =>
      row'.taskId = row.taskId ∧ row.logicalClock ≤ row'.logicalClock) (fun old hkey hold => ?_)
      ⟨row, hrow, rfl, le_refl _⟩
    obtain ⟨value, hvalue, holdValue⟩ := sameValue_iff.mp
      (show sameValue (some (boundText taskId)) old.taskId = true from hkey)
    cases hvalue
    refine ⟨hold.1, ?_⟩
    have hclock := h.currentClock hrow (hold.1.symm.trans holdValue)
    show row.logicalClock ≤ n
    rw [← hclock, hn]
    exact Nat.le_succ_of_le (le_max_left _ _)

theorem Statement.durable (s : Statement) (h : Consistent db)
    (hwrite : s.write db = .ok (u, db')) : Durable db db' := by
  cases s with
  | createTask createdAtMs outside definition =>
    obtain ⟨-, -, -, -, rfl⟩ := insertTask_ok hwrite
    exact durable_insertRow.trans durable_insertRow
  | updateTaskNetworkState taskId networkStatus networkError =>
    obtain ⟨-, -, -, rfl⟩ := updateOne_ok hwrite
    exact durable_of_other (fun t ht => updateRows_of_ne ht) (by decide)
  | setTaskEnabled taskId enabled =>
    obtain ⟨-, -, -, rfl⟩ := updateOne_ok hwrite
    exact durable_of_other (fun t ht => updateRows_of_ne ht) (by decide)
  | updateTaskRuntime taskId status dirty lastScanAtMs lastError =>
    obtain ⟨-, -, -, rfl⟩ := updateOne_ok hwrite
    exact durable_of_other (fun t ht => updateRows_of_ne ht) (by decide)
  | configureTaskConnection connection =>
    obtain ⟨-, rfl⟩ := write_connection_eq hwrite
    exact durable_of_other (fun t ht => upsertRow_of_ne ht) (by decide)
  | upsertTaskMember member =>
    obtain ⟨-, rfl⟩ := write_member_eq hwrite
    exact durable_of_other (fun t ht => upsertRow_of_ne ht) (by decide)
  | upsertFileRecord record =>
    obtain ⟨-, -, rfl⟩ := upsert_ok hwrite
    exact durable_of_other (fun t ht => upsertRow_of_ne ht) (by decide)
  | recordVersionLineage lineage =>
    obtain ⟨existing, -, hrest⟩ := ok_of_bind hwrite
    cases existing with
    | some existing =>
      obtain ⟨-, hrest⟩ := unless_eq_ok.mp hrest
      cases hrest
      exact .refl db
    | none =>
      obtain ⟨-, -, -, rfl⟩ := insert_ok hrest
      exact durable_insertRow
  | advanceLogicalClock taskId observed =>
    obtain ⟨⟨n, db''⟩, hadvance, heq⟩ := ok_of_map hwrite
    cases heq
    -- the clock of a task only grows
    exact durable_advanceClock h hadvance
  | recordConflict conflict =>
    obtain ⟨-, -, -, rfl⟩ := insert_ok hwrite
    exact durable_insertRow
  | updateConflictState conflictId state =>
    obtain ⟨-, -, -, rfl⟩ := updateOne_ok hwrite
    exact durable_of_other (fun t ht => updateRows_of_ne ht) (by decide)
  | recordEngineEvent event =>
    rw [write] at hwrite
    split at hwrite
    · cases hwrite
    obtain ⟨-, -, -, rfl⟩ := insert_ok hwrite
    exact durable_insertRow
  | savePendingIgnorePolicy policy =>
    obtain ⟨-, -, rfl⟩ := upsert_ok hwrite
    exact durable_of_other (fun t ht => upsertRow_of_ne ht) (by decide)
  | clearPendingIgnorePolicy taskId =>
    obtain ⟨db'', hexecute, heq⟩ := ok_of_map hwrite
    cases heq
    obtain ⟨-, rfl⟩ := execute_eq_ok_iff.mp hexecute
    refine durable_of_other (fun t ht => ?_) (by decide : TableName.pendingIgnorePolicies ∉ _)
    rw [delete_pending]
    exact List.filter_eq_self.mpr fun row _ => by rw [onTable_of_ne ht]; rfl
  | createTransfer transfer =>
    obtain ⟨-, -, -, rfl⟩ := insert_ok hwrite
    exact durable_insertRow
  | updateTransferState transferId state updatedAtMs errorCode =>
    obtain ⟨-, -, -, rfl⟩ := updateOne_ok hwrite
    exact durable_of_other (fun t ht => updateRows_of_ne ht) (by decide)

/-- The call deletes a task. -/
def Call.isDeletion : Call → Bool
  | .deleteTask _ => true
  | _ => false

theorem Call.durable (call : Call) (h : Consistent db) (hdeletes : call.isDeletion = false)
    (hrun : call.run db = .ok (u, db')) : Durable db db' := by
  cases call with
  | one s => exact s.durable h (Statement.run_ok hrun).2
  | deleteTask taskId => cases hdeletes
  | recordIgnorePolicyRevision revision =>
    obtain ⟨_, -, hrest⟩ := ok_of_bind hrun
    obtain ⟨⟨number, db''⟩, hrows, heq⟩ := ok_of_map hrest
    cases heq
    obtain ⟨-, -, -, rfl⟩ := revisionRows_ok hrows
    exact durable_insertRow.trans
      (durable_of_other (fun t ht => upsertRow_of_ne ht) (by decide))
  | markTransferChunksCompleted transferId chunkIndices updatedAtMs =>
    obtain ⟨_, -, hrest⟩ := ok_of_bind hrun
    obtain ⟨⟨u₁, db₁⟩, hmarks, htouch⟩ := ok_of_bind hrest
    have hmarked : Durable db db₁ := by
      refine each_invariant (I := Durable db) (fun _ _ db₂ db₃ hmark hdb₂ => ?_) hmarks (.refl db)
      obtain ⟨-, -, rfl⟩ := upsert_ok hmark
      exact hdb₂.trans (durable_of_other (fun t ht => upsertRow_of_ne ht) (by decide))
    obtain ⟨-, -, -, rfl⟩ := updateOne_ok htouch
    exact hmarked.trans (durable_of_other (fun t ht => updateRows_of_ne ht) (by decide))
  | inTransaction body thrown =>
    obtain ⟨⟨u₁, db₁⟩, hbody, hend⟩ := ok_of_bind hrun
    have hkept : Consistent db₁ ∧ Durable db db₁ := by
      refine each_invariant (I := fun db₂ => Consistent db₂ ∧ Durable db db₂)
        (fun s _ db₂ db₃ hs hdb₂ => ?_) hbody ⟨h, .refl db⟩
      obtain ⟨hvalidate, hwrite⟩ := Statement.run_ok hs
      exact ⟨s.consistent hvalidate hdb₂.1 hwrite, hdb₂.2.trans (s.durable hdb₂.1 hwrite)⟩
    cases thrown with
    | none =>
      cases hend
      exact hkept.2
    | some e => cases hend

end Durability

/-! ## Runs -/

/-- The connection after a call. -/
def step (fault : Nat → Option Error) (c : Connection Tables) (call : Call) : Connection Tables :=
  (call.perform fault c).2

/-- What is known of a call in a run. -/
structure Behaves (fault : Nat → Option Error) (c : Connection Tables) (call : Call) : Prop where
  /-- A call that throws has changed nothing. -/
  failed : ∀ e, (call.perform fault c).1 = .error e → (step fault c call).db = c.db
  /-- It throws what the storage throws, or what it throws on these tables at any time. -/
  cause : ∀ e, (call.perform fault c).1 = .error e →
    (∃ i, fault i = some e) ∨ call.run c.db = .error e
  /-- The rows of the tasks that it does not touch are the same. -/
  others : ∀ task, ¬ call.Touches c.db task → SameRows task c.db (step fault c call).db
  durable : call.isDeletion = false → Durable c.db (step fault c call).db

theorem call_behaves {fault : Nat → Option Error} {c : Connection Tables} (call : Call)
    (hidle : c.Idle) (h : Consistent c.db) :
    Behaves fault c call ∧ (step fault c call).Idle ∧ Consistent (step fault c call).db := by
  have hperform : Atomic fault (call.perform fault) call.run := atomic_perform call
  have hatomic := hperform c hidle
  rw [Wp] at hatomic
  rcases hrun : call.perform fault c with ⟨e | u, c'⟩
  · rw [hrun] at hatomic
    obtain ⟨hdb, hidle', hcause⟩ := hatomic
    have hstep : step fault c call = c' := congrArg Prod.snd hrun
    rw [hstep, hdb]
    refine ⟨⟨fun _ _ => ?_, fun e' he' => ?_, fun task _ => ?_, fun _ => ?_⟩, hidle', h⟩
    · rw [hstep, hdb]
    · rw [hrun] at he'
      cases he'
      exact hcause
    · rw [hstep, hdb]
      exact .refl task c.db
    · rw [hstep, hdb]
      exact .refl c.db
  · rw [hrun] at hatomic
    obtain ⟨hok, hidle'⟩ := hatomic
    have hstep : step fault c call = c' := congrArg Prod.snd hrun
    rw [hstep]
    refine ⟨⟨fun e' he' => ?_, fun e' he' => ?_, fun task htouches => ?_, fun hdeletes => ?_⟩,
      hidle', call.consistent h hok⟩
    · rw [hrun] at he'
      cases he'
    · rw [hrun] at he'
      cases he'
    · rw [hstep]
      exact call.sameRows h htouches hok
    · rw [hstep]
      exact call.durable h hdeletes hok

/-- **In every run of calls**, with any arguments and whatever statements the storage fails: the
tables stay consistent, a call does everything or nothing, it leaves the rows of the tasks that it
does not touch as they are, and what is durable is only taken back by the deletion of the task. -/
theorem database_runs (fault : Nat → Option Error) (c : Connection Tables) (hidle : c.Idle)
    (h : Consistent c.db) (calls : List Call) :
    Consistent (Run.run (step fault) c calls).db ∧
      Run.Along (step fault) (Behaves fault) c calls := by
  have hstep : ∀ c call, True → c.Idle ∧ Consistent c.db →
      Behaves fault c call ∧ (step fault c call).Idle ∧ Consistent (step fault c call).db :=
    fun c call _ hc => call_behaves call hc.1 hc.2
  refine ⟨(Run.run_invariant_all (I := fun c => c.Idle ∧ Consistent c.db)
    (fun c call hc => (hstep c call trivial hc).2) calls ⟨hidle, h⟩).2, ?_⟩
  exact Run.along_of_invariant hstep calls c (Run.along_of_forall fun _ _ => trivial) ⟨hidle, h⟩

/-- Two tasks, of which one is used and the other deleted. -/
def firstCalls : List Call :=
  [.one (.createTask 1 (.ok ()) ⟨ascii "a", ascii "bidirectional", ascii "peer", ascii "/a"⟩),
    .one (.createTask 1 (.ok ()) ⟨ascii "b", ascii "bidirectional", ascii "peer", ascii "/b"⟩),
    .inTransaction [.advanceLogicalClock (ascii "a") 7,
      .recordVersionLineage ⟨ascii "a", ascii "v", none⟩] none,
    .deleteTask (ascii "b")]

/-- The calls of a new database. -/
theorem database_runs_new :
    Consistent (Run.run (step noFault) ⟨newTables, none, 0⟩ firstCalls).db ∧
      Run.Along (step noFault) (Behaves noFault) ⟨newTables, none, 0⟩ firstCalls :=
  database_runs noFault ⟨newTables, none, 0⟩ rfl consistent_newTables firstCalls

end Storage

end VeritasSync
