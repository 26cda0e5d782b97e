import VeritasSync.Lib.Run
import VeritasSync.Storage.Statements

/-!
# What every call of the database keeps

The schema has primary keys, references and `CHECK`s, which SQLite keeps up.  The functions rely on
more: that a task has its row in `task_runtime`, which a trigger inserts, and that the revision that
is current is the newest one.

SQLite checks its constraints statement by statement, and a statement that would break one fails.
So the part of `Consistent` that is in the schema needs no proof about the functions, only about
what the checks let through.  The part that is not in the schema is the one to watch.  It is true
because every function that writes one of two related rows also writes the other, in one
transaction.

## What is here

* `Consistent` — all of this.
* `Statement.consistent` — a function with one statement keeps it.
* `Call.run` — what a call does when it returns, as one function on the tables; `atomic_perform`
  says that it does this or nothing, whatever statements the storage fails.
* `Call.consistent` — **every call keeps the tables consistent**.
-/

set_option autoImplicit false

namespace VeritasSync

namespace Storage

open Exec Relational Transaction

variable {db db' : Tables} {task : Bytes}

/-! ## Consistent tables

The functions look up rows and throw if there are none, and they take the newest revision for the
one that the state row points at.  What they may rely on is collected here, so that each of them has
one hypothesis. -/

/-- The columns of the key are not NULL. -/
def named : ∀ table, Row table → Bool
  | .tasks, row => row.taskId.isSome
  | .transfers, row => row.transferId.isSome
  | .conflicts, row => row.conflictId.isSome
  | .taskClocks, row => row.taskId.isSome
  | .ignorePolicyState, row => row.taskId.isSome
  | .taskRuntime, row => row.taskId.isSome
  | .taskConnections, row => row.taskId.isSome
  | .pendingIgnorePolicies, row => row.taskId.isSome
  | _, _ => true

/-- What the functions of the database rely on. -/
structure Consistent (db : Tables) : Prop where
  valid : Valid schema db
  allowed : ∀ table, ∀ row ∈ db table, allowed table row = true
  named : ∀ table, ∀ row ∈ db table, named table row = true
  /-- `RuntimeState` finds the row of every task. -/
  runtime : ∀ row ∈ db .tasks, ∃ runtime ∈ db .taskRuntime, runtime.taskId = row.taskId
  numbers : ∀ revision ∈ db .ignorePolicyRevisions, revision.revision ≤ Database.int64Max
  /-- A task that has revisions has a current one. -/
  current : ∀ revision ∈ db .ignorePolicyRevisions,
    ∃ state ∈ db .ignorePolicyState, state.taskId = some revision.taskId
  /-- It is the newest. -/
  newest : ∀ state ∈ db .ignorePolicyState, ∀ revision ∈ db .ignorePolicyRevisions,
    state.taskId = some revision.taskId → revision.revision ≤ state.revision

theorem consistent_newTables : Consistent newTables :=
  ⟨⟨by decide, by decide⟩, fun _ _ h => absurd h List.not_mem_nil,
    fun _ _ h => absurd h List.not_mem_nil, fun _ h => absurd h List.not_mem_nil,
    fun _ h => absurd h List.not_mem_nil, fun _ h => absurd h List.not_mem_nil,
    fun _ h => absurd h List.not_mem_nil⟩

/-- New rows, outside of the tables of the policies. -/
theorem Consistent.of_rows (h : Consistent db) (hvalid : Valid schema db')
    (hrows : ∀ t, ∀ row ∈ db' t, row ∈ db t ∨
      Storage.allowed t row = true ∧ Storage.named t row = true)
    (hruntime : ∀ row ∈ db' .tasks, ∃ runtime ∈ db' .taskRuntime, runtime.taskId = row.taskId)
    (hrevisions : db' .ignorePolicyRevisions = db .ignorePolicyRevisions)
    (hstate : db' .ignorePolicyState = db .ignorePolicyState) : Consistent db' where
  valid := hvalid
  allowed t row hrow := (hrows t row hrow).elim (h.allowed t row) And.left
  named t row hrow := (hrows t row hrow).elim (h.named t row) And.right
  runtime := hruntime
  numbers := by
    rw [hrevisions]
    exact h.numbers
  current := by
    rw [hrevisions, hstate]
    exact h.current
  newest := by
    rw [hrevisions, hstate]
    exact h.newest

/-- The tables whose rows are tied to others by no more than the references. -/
def plain : TableName → Bool
  | .tasks | .taskRuntime | .ignorePolicyRevisions | .ignorePolicyState => false
  | _ => true

/-- A change of one of these tables. -/
theorem Consistent.of_table (h : Consistent db) {table : TableName} (hplain : plain table = true)
    (hother : ∀ t, t ≠ table → db' t = db t) (hvalid : Valid schema db')
    (hrows : ∀ row ∈ db' table, row ∈ db table ∨
      Storage.allowed table row = true ∧ Storage.named table row = true) : Consistent db' := by
  have hsame : ∀ t, plain t = false → db' t = db t := fun t ht =>
    hother t (by rintro rfl; rw [hplain] at ht; cases ht)
  refine h.of_rows hvalid (fun t row hrow => ?_) ?_ (hsame _ rfl) (hsame _ rfl)
  · by_cases ht : t = table
    · subst ht
      exact hrows row hrow
    · rw [hother t ht] at hrow
      exact .inl hrow
  · rw [hsame .tasks rfl, hsame .taskRuntime rfl]
    exact h.runtime

/-! ## Statements -/

section Statements

variable {what : String} {table : TableName} {row : Row table} {change : Row table → Row table}
  {selects : Row table → Bool} {u : Unit}

theorem insert_ok (h : insert what table row db = .ok (u, db')) :
    allowed table row = true ∧ (db table).any (sameKey table row) = false ∧
      ForeignKeys schema db' ∧ db' = insertRow table row db := by
  rw [insert] at h
  split at h
  · cases h
  rename_i hallowed
  split at h
  · cases h
  rename_i hnew
  obtain ⟨db'', hexecute, heq⟩ := ok_of_map h
  cases heq
  obtain ⟨hkeys, rfl⟩ := execute_eq_ok_iff.mp hexecute
  exact ⟨Bool.not_eq_false _ ▸ hallowed, Bool.eq_false_iff.mpr hnew, hkeys, rfl⟩

theorem upsert_ok (h : upsert what table row change db = .ok (u, db')) :
    allowed table row = true ∧ ForeignKeys schema db' ∧
      db' = upsertRow schema table row change db := by
  rw [upsert] at h
  split at h
  · cases h
  rename_i hallowed
  obtain ⟨db'', hexecute, heq⟩ := ok_of_map h
  cases heq
  obtain ⟨hkeys, rfl⟩ := execute_eq_ok_iff.mp hexecute
  exact ⟨Bool.not_eq_false _ ▸ hallowed, hkeys, rfl⟩

theorem updateOne_ok {missing : String}
    (h : updateOne what table missing selects change db = .ok (u, db')) :
    (∀ row ∈ db table, selects row = true → allowed table (change row) = true) ∧
      ((db table).filter selects).length = 1 ∧ ForeignKeys schema db' ∧
      db' = updateRows table selects change db := by
  obtain ⟨⟨n, db''⟩, hupdate, hrest⟩ := ok_of_bind h
  split at hrest
  · cases hrest
  rename_i hone
  cases hrest
  rw [update] at hupdate
  split at hupdate
  · cases hupdate
  rename_i hallowed
  obtain ⟨db'', hexecute, heq⟩ := ok_of_map hupdate
  cases heq
  obtain ⟨hkeys, rfl⟩ := execute_eq_ok_iff.mp hexecute
  refine ⟨fun row hrow hselects => ?_, not_ne_iff.mp hone, hkeys, rfl⟩
  have hnone := List.any_eq_false.mp (Bool.eq_false_iff.mpr hallowed) row hrow
  rw [hselects, Bool.true_and, Bool.not_eq_true', Bool.not_eq_false] at hnone
  exact hnone

theorem Consistent.insert (h : Consistent db) (hplain : plain table = true)
    (hnamed : Storage.named table row = true)
    (hinsert : Storage.insert what table row db = .ok (u, db')) : Consistent db' := by
  obtain ⟨hallowed, hnew, hkeys, rfl⟩ := insert_ok hinsert
  refine h.of_table hplain (fun t ht => insertRow_of_ne ht)
    (h.valid.insertRow sameKey_comm hnew hkeys) fun other hother => ?_
  rw [insertRow_self] at hother
  rcases List.mem_append.mp hother with hold | hnew
  · exact .inl hold
  · rw [List.mem_singleton.mp hnew]
    exact .inr ⟨hallowed, hnamed⟩

theorem Consistent.upsertRow (h : Consistent db) (hplain : plain table = true)
    (hallowed : Storage.allowed table row = true) (hnamed : Storage.named table row = true)
    (hkey : ∀ old other, sameKey table (change old) other = sameKey table old other)
    (hchange : ∀ old, Storage.named table old = true →
      Storage.allowed table (change old) = true ∧ Storage.named table (change old) = true)
    (hkeys : ForeignKeys schema (upsertRow schema table row change db)) :
    Consistent (Relational.upsertRow schema table row change db) := by
  refine h.of_table hplain (fun t ht => upsertRow_of_ne ht)
    (h.valid.upsertRow sameKey_comm hkey hkeys) fun other hother => ?_
  rcases mem_upsertRow_cases hother with ⟨hold, -⟩ | rfl | ⟨old, hold, -, rfl⟩
  · exact .inl hold
  · exact .inr ⟨hallowed, hnamed⟩
  · exact .inr (hchange old (h.named table old hold))

theorem Consistent.updateOne {missing : String} (h : Consistent db) (hplain : plain table = true)
    (hkey : ∀ old other, sameKey table (change old) other = sameKey table old other)
    (hchange : ∀ old, Storage.named table (change old) = Storage.named table old)
    (hupdate : Storage.updateOne what table missing selects change db = .ok (u, db')) :
    Consistent db' := by
  obtain ⟨hallowed, -, hkeys, rfl⟩ := updateOne_ok hupdate
  refine h.of_table hplain (fun t ht => updateRows_of_ne ht)
    (h.valid.updateRows sameKey_comm hkey hkeys) fun other hother => ?_
  rw [updateRows_self] at hother
  obtain ⟨old, hold, rfl⟩ := List.mem_map.mp hother
  by_cases hselects : selects old = true
  · rw [if_pos hselects]
    exact .inr ⟨hallowed old hold hselects, (hchange old).trans (h.named table old hold)⟩
  · rw [if_neg hselects]
    exact .inl hold

end Statements

/-! ## The functions with one statement -/

section Write

variable {u : Unit}

theorem write_connection_eq {connection : TaskConnection}
    (h : connection.write db = .ok (u, db')) :
    ForeignKeys schema db' ∧ db' = upsertRow schema .taskConnections connection.row (fun old =>
      { connection.row with taskId := old.taskId }) db := by
  obtain ⟨db'', hexecute, heq⟩ := ok_of_map h
  cases heq
  obtain ⟨hkeys, rfl⟩ := execute_eq_ok_iff.mp hexecute
  exact ⟨hkeys, rfl⟩

theorem write_member_eq {member : TaskMember} (h : member.write db = .ok (u, db')) :
    ForeignKeys schema db' ∧ db' = upsertRow schema .taskMembers member.row (fun old =>
      { member.row with taskId := old.taskId, deviceId := old.deviceId }) db := by
  obtain ⟨db'', hexecute, heq⟩ := ok_of_map h
  cases heq
  obtain ⟨hkeys, rfl⟩ := execute_eq_ok_iff.mp hexecute
  exact ⟨hkeys, rfl⟩

theorem insertTask_ok {createdAtMs : Int} {task : TaskDefinition}
    (h : insertTask createdAtMs task db = .ok (u, db')) :
    allowed .tasks (task.row createdAtMs) = true ∧
      (db .tasks).any (sameKey .tasks (task.row createdAtMs)) = false ∧
      (db .taskRuntime).any (sameKey .taskRuntime task.runtimeRow) = false ∧
      ForeignKeys schema db' ∧ db' = insertTaskRows createdAtMs task db := by
  rw [insertTask] at h
  split at h
  · cases h
  rename_i hallowed
  split at h
  · cases h
  rename_i hnew
  obtain ⟨db'', hexecute, heq⟩ := ok_of_map h
  cases heq
  obtain ⟨hkeys, rfl⟩ := execute_eq_ok_iff.mp hexecute
  rw [not_or] at hallowed hnew
  exact ⟨decide_eq_true ⟨not_not.mp hallowed.1, not_not.mp hallowed.2⟩,
    Bool.eq_false_iff.mpr hnew.1, Bool.eq_false_iff.mpr hnew.2, hkeys, rfl⟩

/-- What the body of `AdvanceLogicalClock` does. -/
theorem advanceClock_ok {taskId : Bytes} {observed : UInt64} {n : Nat}
    (h : advanceClock taskId observed db = .ok (n, db')) :
    n = max (currentClock taskId db) observed.toNat + 1 ∧
      max (currentClock taskId db) observed.toNat ≠ Database.int64Max ∧
      ForeignKeys schema db' ∧
      db' = upsertRow schema .taskClocks ⟨some (boundText taskId), n⟩
        (fun old => { old with logicalClock := n }) db := by
  rw [advanceClock] at h
  split at h
  · cases h
  rename_i hmax
  obtain ⟨⟨u, db₁⟩, hupsert, heq⟩ := ok_of_map h
  cases heq
  obtain ⟨-, hkeys, rfl⟩ := upsert_ok hupsert
  exact ⟨rfl, hmax, hkeys, rfl⟩

/-- The trigger gives a new task its row. -/
theorem Consistent.insertTask (h : Consistent db) {createdAtMs : Int} {task : TaskDefinition}
    (hinsert : VeritasSync.insertTask createdAtMs task db = .ok (u, db')) : Consistent db' := by
  obtain ⟨hallowed, hnew, hnewRuntime, hkeys, rfl⟩ := insertTask_ok hinsert
  have hother : ∀ t, t ≠ .tasks → t ≠ .taskRuntime →
      insertTaskRows createdAtMs task db t = db t :=
    fun t htasks hruntime => (insertRow_of_ne hruntime).trans (insertRow_of_ne htasks)
  have htasks : insertTaskRows createdAtMs task db .tasks =
      db .tasks ++ [task.row createdAtMs] :=
    (insertRow_of_ne (by decide)).trans insertRow_self
  have hruntime : insertTaskRows createdAtMs task db .taskRuntime =
      db .taskRuntime ++ [task.runtimeRow] :=
    insertRow_self.trans (congrArg (· ++ _) (insertRow_of_ne (by decide)))
  -- the new rows are one of the task and one of its runtime
  have hrows : ∀ t, ∀ row ∈ insertTaskRows createdAtMs task db t, row ∈ db t ∨
      Storage.allowed t row = true ∧ Storage.named t row = true := by
    intro t row hrow
    by_cases htask : t = .tasks
    · subst htask
      rw [htasks] at hrow
      rcases List.mem_append.mp hrow with hold | hnew
      · exact .inl hold
      · rw [List.mem_singleton.mp hnew]
        exact .inr ⟨hallowed, rfl⟩
    by_cases hrun : t = .taskRuntime
    · subst hrun
      rw [hruntime] at hrow
      rcases List.mem_append.mp hrow with hold | hnew
      · exact .inl hold
      · rw [List.mem_singleton.mp hnew]
        exact .inr ⟨rfl, rfl⟩
    rw [hother t htask hrun] at hrow
    exact .inl hrow
  refine h.of_rows ⟨fun t => ?_, hkeys⟩ hrows (fun row hrow => ?_)
    (hother _ (by decide) (by decide)) (hother _ (by decide) (by decide))
  · by_cases htask : t = .tasks
    · subst htask
      rw [htasks]
      exact pairwise_append_row sameKey_comm (h.valid.keys .tasks) hnew
    by_cases hrow : t = .taskRuntime
    · subst hrow
      rw [hruntime]
      exact pairwise_append_row sameKey_comm (h.valid.keys .taskRuntime) hnewRuntime
    rw [hother t htask hrow]
    exact h.valid.keys t
  · rw [htasks] at hrow
    rw [hruntime]
    rcases List.mem_append.mp hrow with hold | hnew
    · obtain ⟨runtime, hmem, hid⟩ := h.runtime row hold
      exact ⟨runtime, List.mem_append_left _ hmem, hid⟩
    · rw [List.mem_singleton.mp hnew]
      exact ⟨_, List.mem_append_right _ (List.mem_singleton_self _), rfl⟩

theorem Consistent.updateRuntime (h : Consistent db) {what : String} {taskId : Bytes}
    {change : TaskRuntimeRow → TaskRuntimeRow} (hid : ∀ row, (change row).taskId = row.taskId)
    (hupdate : Storage.updateRuntime what taskId change db = .ok (u, db')) : Consistent db' := by
  obtain ⟨hallowed, -, hkeys, rfl⟩ := updateOne_ok hupdate
  set selects := fun row : TaskRuntimeRow => decide (row.taskId = some (boundText taskId))
  have hother : ∀ t, t ≠ .taskRuntime → updateRows .taskRuntime selects change db t = db t :=
    fun t ht => updateRows_of_ne ht
  have hrows : ∀ t, ∀ row ∈ updateRows .taskRuntime selects change db t, row ∈ db t ∨
      Storage.allowed t row = true ∧ Storage.named t row = true := by
    intro t row hrow
    by_cases ht : t = .taskRuntime
    · subst ht
      rw [updateRows_self] at hrow
      obtain ⟨old, hold, rfl⟩ := List.mem_map.mp hrow
      by_cases hselects : selects old = true
      · rw [if_pos hselects]
        refine .inr ⟨hallowed old hold hselects, ?_⟩
        show (change old).taskId.isSome = true
        rw [hid]
        exact h.named .taskRuntime old hold
      · rw [if_neg hselects]
        exact .inl hold
    · rw [hother t ht] at hrow
      exact .inl hrow
  refine h.of_rows (h.valid.updateRows sameKey_comm (fun old other => ?_) hkeys) hrows
    (fun row hrow => ?_) (hother _ (by decide)) (hother _ (by decide))
  · show sameValue _ _ = sameValue _ _
    rw [hid]
  · rw [hother .tasks (by decide)] at hrow
    rw [updateRows_self]
    obtain ⟨runtime, hmem, hsame⟩ := h.runtime row hrow
    refine ⟨_, List.mem_map_of_mem hmem, ?_⟩
    split
    · exact (hid runtime).trans hsame
    · exact hsame

/-- Nothing refers to a negotiation. -/
theorem delete_pending (db : Tables) (p : PendingIgnorePolicyRow → Bool) (t : TableName) :
    delete schema (onTable .pendingIgnorePolicies p) db t =
      (db t).filter fun row => !onTable .pendingIgnorePolicies p t row := by
  have hparents : ∀ t, ∀ ref ∈ schema.references t, ref.parent ≠ .pendingIgnorePolicies := by
    decide
  exact delete_apply fun ref href => .inr fun row _ => onTable_of_ne (hparents t ref href) row

theorem Consistent.clearPending (h : Consistent db) {p : PendingIgnorePolicyRow → Bool}
    (hkeys : ForeignKeys schema (delete schema (onTable .pendingIgnorePolicies p) db)) :
    Consistent (delete schema (onTable .pendingIgnorePolicies p) db) := by
  have hrows := delete_pending db p
  refine h.of_table (show plain .pendingIgnorePolicies = true from rfl) (fun t ht => ?_)
    ⟨fun t => ?_, hkeys⟩ fun row hrow => ?_
  · rw [hrows]
    exact List.filter_eq_self.mpr fun row _ => by rw [onTable_of_ne ht]; rfl
  · rw [hrows]
    exact (h.valid.keys t).filter _
  · rw [hrows] at hrow
    exact .inl (List.mem_filter.mp hrow).1

/-- A role that has passed its check is stored as it is. -/
theorem boundText_role {role : Bytes} (h : role ∈ roles) : boundText role = role := by
  have hroles : ∀ role ∈ roles, boundText role = role := by decide
  exact hroles role h

/-- **What a function with one statement keeps**, when its arguments have passed its checks.  Each
statement is gone through once here, with the constraints it comes under; the calls are made of
them. -/
theorem Statement.consistent (s : Statement) (hvalidate : s.validate = .ok ()) (h : Consistent db)
    (hwrite : s.write db = .ok (u, db')) : Consistent db' := by
  cases s with
  | createTask createdAtMs outside task => exact h.insertTask hwrite
  | updateTaskNetworkState taskId networkStatus networkError =>
    refine h.updateRuntime ?_ hwrite
    exact fun _ => rfl
  | setTaskEnabled taskId enabled =>
    refine h.updateRuntime ?_ hwrite
    exact fun _ => rfl
  | updateTaskRuntime taskId status dirty lastScanAtMs lastError =>
    refine h.updateRuntime ?_ hwrite
    exact fun _ => rfl
  | configureTaskConnection connection =>
    obtain ⟨hkeys, rfl⟩ := write_connection_eq hwrite
    exact h.upsertRow rfl rfl rfl (fun _ _ => rfl) (fun old hold => ⟨rfl, hold⟩) hkeys
  | upsertTaskMember member =>
    obtain ⟨hkeys, rfl⟩ := write_member_eq hwrite
    -- the check of the role comes before the statement, so the table takes the row
    have hrole : Storage.allowed .taskMembers member.row = true := by
      rw [validate] at hvalidate
      split at hvalidate
      · cases hvalidate
      · rename_i hvalid
        rw [TaskMember.Invalid, not_or, not_or, not_or, not_or] at hvalid
        have hrole : member.role ∈ roles := not_not.mp hvalid.2.2.2.1
        refine decide_eq_true ?_
        rw [TaskMember.row, boundText_role hrole]
        exact hrole
    exact h.upsertRow rfl hrole rfl (fun _ _ => rfl) (fun old _ => ⟨hrole, rfl⟩) hkeys
  | upsertFileRecord record =>
    obtain ⟨hallowed, hkeys, rfl⟩ := upsert_ok hwrite
    exact h.upsertRow rfl hallowed rfl (fun _ _ => rfl) (fun old _ => ⟨hallowed, rfl⟩) hkeys
  | recordVersionLineage lineage =>
    obtain ⟨existing, hfind, hrest⟩ := ok_of_bind hwrite
    cases existing with
    | some existing =>
      obtain ⟨-, hrest⟩ := unless_eq_ok.mp hrest
      cases hrest
      exact h
    | none => exact h.insert rfl rfl hrest
  | advanceLogicalClock taskId observed =>
    obtain ⟨⟨n, db''⟩, hadvance, heq⟩ := ok_of_map hwrite
    cases heq
    obtain ⟨-, -, hkeys, rfl⟩ := advanceClock_ok hadvance
    exact h.upsertRow rfl rfl rfl (fun _ _ => rfl) (fun old hold => ⟨rfl, hold⟩) hkeys
  | recordConflict conflict => exact h.insert rfl rfl hwrite
  | updateConflictState conflictId state =>
    refine h.updateOne ?_ ?_ ?_ hwrite
    · rfl
    · exact fun _ _ => rfl
    · exact fun _ => rfl
  | recordEngineEvent event =>
    rw [write] at hwrite
    split at hwrite
    · cases hwrite
    · exact h.insert rfl rfl hwrite
  | savePendingIgnorePolicy policy =>
    obtain ⟨hallowed, hkeys, rfl⟩ := upsert_ok hwrite
    exact h.upsertRow rfl hallowed rfl (fun _ _ => rfl) (fun old hold => ⟨hallowed, hold⟩) hkeys
  | clearPendingIgnorePolicy taskId =>
    obtain ⟨db'', hexecute, heq⟩ := ok_of_map hwrite
    cases heq
    obtain ⟨hkeys, rfl⟩ := execute_eq_ok_iff.mp hexecute
    exact h.clearPending hkeys
  | createTransfer transfer => exact h.insert rfl rfl hwrite
  | updateTransferState transferId state updatedAtMs errorCode =>
    refine h.updateOne ?_ ?_ ?_ hwrite
    · rfl
    · exact fun _ _ => rfl
    · exact fun _ => rfl

end Write

/-! ## What a call does

A call is a sequence of statements that may stop anywhere.  `Call.run` is the same call as one
function on the tables, without the storage in it, and `atomic_perform` is the bridge: after that
nothing about a call needs to know that it had statements. -/

/-- A function with one statement, when the storage does not fail. -/
def Statement.run (s : Statement) (db : Tables) : Except Error (Unit × Tables) :=
  s.validate >>= fun _ => s.write db

/-- The body of `RecordIgnorePolicyRevision`. -/
def revisionRows (revision : NewRevision) (db : Tables) : Except Error (Int × Tables) :=
  let number := nextRevision revision.taskId db
  if number ≤ 0 then .error (.runtimeError "ignore policy revision overflow")
  else
    insert "insert ignore policy revision" .ignorePolicyRevisions (revision.row number) db >>=
      fun r => (upsert "update ignore policy state" .ignorePolicyState (revision.stateRow number)
        (fun old => { revision.stateRow number with taskId := old.taskId }) r.2).map
          fun r' => (number, r'.2)

/-- The body of `MarkTransferChunksCompleted`. -/
def chunkRows (transferId : TransferId) (chunkIndices : List UInt64) (updatedAtMs : Int)
    (db : Tables) : Except Error (Unit × Tables) :=
  each (markChunk transferId) chunkIndices db >>= fun r => touchTransfer transferId updatedAtMs r.2

/-- What an `InTransaction` ends with. -/
def ending (thrown : Option Error) (db : Tables) : Except Error (Unit × Tables) :=
  match thrown with
  | some e => .error e
  | none => .ok ((), db)

/-- **What a call does, if it does anything.** -/
def Call.run : Call → Tables → Except Error (Unit × Tables)
  | .one s, db => s.run db
  | .deleteTask taskId, db =>
    if taskId = [] then .error (.invalidArgument "task id is required")
    else deleteRows (boundText taskId) db
  | .recordIgnorePolicyRevision revision, db =>
    revision.validate >>= fun _ => (revisionRows revision db).map fun r => ((), r.2)
  | .markTransferChunksCompleted transferId chunkIndices updatedAtMs, db =>
    validateChunks chunkIndices updatedAtMs >>= fun _ =>
      chunkRows transferId chunkIndices updatedAtMs db
  | .inTransaction body thrown, db =>
    each Statement.run body db >>= fun r => ending thrown r.2

section Perform

variable {fault : Nat → Option Error}

theorem atomic_execute (s : Statement) : Atomic fault (s.execute fault) s.write := by
  intro c hidle
  cases s with
  | advanceLogicalClock taskId observed =>
    rw [Statement.execute, wp_bind, wp_state, hidle]
    exact (implements_statement _).atomic c hidle
  | _ => exact atomic_statement _ c hidle

theorem implements_execute (s : Statement) : Implements fault (s.execute fault) s.write := by
  cases s with
  | advanceLogicalClock taskId observed =>
    have heq : Statement.execute fault (.advanceLogicalClock taskId observed) = fun c =>
        if c.saved.isNone then Transaction.inTransaction fault
          (statement fault (Statement.write (.advanceLogicalClock taskId observed))) c
        else statement fault (Statement.write (.advanceLogicalClock taskId observed)) c := by
      funext c
      rw [Statement.execute, bind_apply, state_apply]
      cases hsaved : c.saved with
      | none => simp only [hsaved, Option.isNone_none, if_true]
      | some db => simp only [hsaved, Option.isNone_some, Bool.false_eq_true, if_false]
    rw [heq]
    exact (implements_statement _).of_idle (implements_statement _).atomic
  | _ => exact implements_statement _

theorem implements_perform (s : Statement) : Implements fault (s.perform fault) s.run :=
  ((implements_check _).bind fun _ => implements_execute s).congr fun db => by
    rw [Statement.run]
    cases s.validate <;> rfl

theorem implements_performAll (body : List Statement) (thrown : Option Error) :
    Implements fault (performAll fault body thrown)
      fun db => each Statement.run body db >>= fun r => ending thrown r.2 := by
  refine (Implements.forM implements_perform body).bind (g := fun _ => ending thrown) fun _ => ?_
  cases thrown with
  | none => exact implements_pure ()
  | some e => exact implements_raise e

theorem implements_recordRevision (revision : NewRevision) :
    Implements fault (recordRevision fault revision) (revisionRows revision) := by
  refine Implements.congr ((implements_statement _).bind fun number =>
    (implements_raise _).ite ((implements_statement _).bind fun _ =>
      (implements_statement _).bind fun _ => implements_pure number)) fun db => ?_
  rw [revisionRows]
  show _ = (if nextRevision revision.taskId db ≤ 0 then _ else _)
  split <;> rfl

/-- **A call that throws has changed nothing**, whatever the storage does, and one that returns has
done all that it does. -/
theorem atomic_perform (call : Call) : Atomic fault (call.perform fault) call.run := by
  cases call with
  | one s => exact (atomic_execute s).check_bind
  | deleteTask taskId =>
    show Atomic fault (VeritasSync.deleteTask fault taskId) _
    rw [VeritasSync.deleteTask]
    by_cases hempty : taskId = []
    · intro c hidle
      rw [if_pos hempty]
      refine ⟨rfl, hidle, .inr ?_⟩
      rw [Call.run, if_pos hempty]
    · rw [if_neg hempty]
      refine ((implements_deleteRows (boundText taskId)).atomic).congr fun db => ?_
      rw [Call.run, if_neg hempty]
  | recordIgnorePolicyRevision revision =>
    exact ((implements_recordRevision revision).atomic.map fun _ => ()).check_bind
  | markTransferChunksCompleted transferId chunkIndices updatedAtMs =>
    exact ((Implements.forM (fun _ => implements_statement _) chunkIndices).bind fun _ =>
      implements_statement _).atomic.check_bind
  | inTransaction body thrown => exact (implements_performAll body thrown).atomic

end Perform

/-! ## Every call keeps the tables consistent -/

section Consistency

variable {u : Unit}

theorem Statement.run_ok {s : Statement} (h : s.run db = .ok (u, db')) :
    s.validate = .ok () ∧ s.write db = .ok (u, db') := by
  obtain ⟨_, hvalidate, hwrite⟩ := ok_of_bind h
  exact ⟨hvalidate, hwrite⟩

theorem Consistent.withoutTask (h : Consistent db) (task : Bytes) :
    Consistent (VeritasSync.withoutTask task db) := by
  have hmem : ∀ t, t ≠ .engineEvents → ∀ row ∈ VeritasSync.withoutTask task db t, row ∈ db t :=
    fun t ht row hrow => ((mem_withoutTask ht).mp hrow).1
  have hrows : ∀ t, ∀ row ∈ VeritasSync.withoutTask task db t, row ∈ db t ∨
      Storage.allowed t row = true ∧ Storage.named t row = true := by
    intro t row hrow
    by_cases ht : t = .engineEvents
    · subst ht
      obtain ⟨event, hevent, rfl⟩ := List.mem_map.mp hrow
      have hlevel := h.allowed .engineEvents event hevent
      split
      · exact .inr ⟨hlevel, rfl⟩
      · exact .inl hevent
    · exact .inl (hmem t ht row hrow)
  refine ⟨valid_withoutTask task h.valid, fun t row hrow => ?_, fun t row hrow => ?_,
    fun row hrow => ?_, fun row hrow => ?_, fun row hrow => ?_,
    fun state hstate row hrow hsame => ?_⟩
  · exact (hrows t row hrow).elim (h.allowed t row) And.left
  · exact (hrows t row hrow).elim (h.named t row) And.right
  · obtain ⟨hold, hother⟩ := (mem_withoutTask (by decide)).mp hrow
    obtain ⟨runtime, hmem, hid⟩ := h.runtime row hold
    refine ⟨runtime, (mem_withoutTask (by decide)).mpr ⟨hmem, fun hbelongs => hother ?_⟩, hid⟩
    have htask : runtime.taskId = some task := (belongs_iff (by decide)).mp hbelongs
    exact (belongs_iff (by decide)).mpr (hid.symm.trans htask)
  · exact h.numbers row (hmem _ (by decide) row hrow)
  · obtain ⟨hold, hother⟩ := (mem_withoutTask (by decide)).mp hrow
    obtain ⟨state, hmem, hid⟩ := h.current row hold
    refine ⟨state, (mem_withoutTask (by decide)).mpr ⟨hmem, fun hbelongs => hother ?_⟩, hid⟩
    have htask : state.taskId = some task := (belongs_iff (by decide)).mp hbelongs
    exact (belongs_iff (by decide)).mpr (hid.symm.trans htask)
  · exact h.newest state (hmem _ (by decide) state hstate) row (hmem _ (by decide) row hrow) hsame

theorem le_foldl_max {α : Type} [LinearOrder α] {l : List α} {n start : α}
    (h : n ≤ start ∨ n ∈ l) : n ≤ l.foldl max start := by
  induction l generalizing start with
  | nil => exact h.resolve_right List.not_mem_nil
  | cons m rest ih =>
    refine ih ?_
    rcases h with hstart | hmem
    · exact .inl (le_trans hstart (le_max_left start m))
    · rcases List.mem_cons.mp hmem with rfl | hrest
      · exact .inl (le_max_right start n)
      · exact .inr hrest

/-- The number of a new revision is larger than those before, or the largest there is. -/
theorem Consistent.le_nextRevision (h : Consistent db) {taskId : Bytes}
    {row : IgnorePolicyRevisionRow} (hrow : row ∈ db .ignorePolicyRevisions)
    (htask : row.taskId = boundText taskId) : row.revision ≤ nextRevision taskId db := by
  have hlast : row.revision ≤ lastRevision taskId db :=
    le_foldl_max (.inr (List.mem_map_of_mem (List.mem_filter.mpr ⟨hrow, decide_eq_true htask⟩)))
  exact le_min (le_trans hlast (Int.le_add_one (le_refl _))) (h.numbers row hrow)

/-- What the body of `RecordIgnorePolicyRevision` does. -/
theorem revisionRows_ok {revision : NewRevision} {number : Int}
    (h : revisionRows revision db = .ok (number, db')) :
    number = nextRevision revision.taskId db ∧
      insert "insert ignore policy revision" .ignorePolicyRevisions (revision.row number) db =
        .ok ((), insertRow .ignorePolicyRevisions (revision.row number) db) ∧
      ForeignKeys schema db' ∧
      db' = upsertRow schema .ignorePolicyState (revision.stateRow number)
        (fun old => { revision.stateRow number with taskId := old.taskId })
        (insertRow .ignorePolicyRevisions (revision.row number) db) := by
  rw [revisionRows] at h
  split at h
  · cases h
  obtain ⟨⟨u₁, db₁⟩, hinsert, hrest⟩ := ok_of_bind h
  obtain ⟨⟨u₂, db₂⟩, hupsert, heq⟩ := ok_of_map hrest
  cases heq
  obtain ⟨-, -, -, rfl⟩ := insert_ok hinsert
  obtain ⟨-, hkeys, rfl⟩ := upsert_ok hupsert
  exact ⟨rfl, hinsert, hkeys, rfl⟩

theorem NewRevision.stateRow_of_sameKey (revision : NewRevision) {number : Int}
    {old : IgnorePolicyStateRow}
    (hkey : sameKey .ignorePolicyState (revision.stateRow number) old = true) :
    { revision.stateRow number with taskId := old.taskId } = revision.stateRow number := by
  obtain ⟨value, hvalue, hold⟩ := sameValue_iff.mp
    (show sameValue (revision.stateRow number).taskId old.taskId = true from hkey)
  rw [hold, ← hvalue]

/-- The new revision is the current one. -/
theorem Consistent.revisionRows (h : Consistent db) {revision : NewRevision} {number : Int}
    (hrun : Storage.revisionRows revision db = .ok (number, db')) : Consistent db' := by
  obtain ⟨hnumber, hinsert, hkeys, rfl⟩ := revisionRows_ok hrun
  obtain ⟨hallowed, hnew, hkeys₁, -⟩ := insert_ok hinsert
  set db₁ := insertRow .ignorePolicyRevisions (revision.row number) db with hdb₁
  set change := fun old : IgnorePolicyStateRow =>
    { revision.stateRow number with taskId := old.taskId }
  have hkey : ∀ old other, schema.sameKey .ignorePolicyState (change old) other =
      schema.sameKey .ignorePolicyState old other := fun _ _ => rfl
  have hvalid := (h.valid.insertRow sameKey_comm hnew hkeys₁).upsertRow sameKey_comm hkey hkeys
  set db₂ := Relational.upsertRow schema .ignorePolicyState (revision.stateRow number) change db₁
    with hdb₂
  have hother : ∀ t, t ≠ .ignorePolicyRevisions → t ≠ .ignorePolicyState → db₂ t = db t :=
    fun t hrevisions hstate => (upsertRow_of_ne hstate).trans (insertRow_of_ne hrevisions)
  have hrevisions : db₂ .ignorePolicyRevisions =
      db .ignorePolicyRevisions ++ [revision.row number] :=
    (upsertRow_of_ne (by decide)).trans insertRow_self
  have hstates : db₁ .ignorePolicyState = db .ignorePolicyState := insertRow_of_ne (by decide)
  -- what there is of states: those of other tasks, and the new one
  have hstate : ∀ state ∈ db₂ .ignorePolicyState,
      (state ∈ db .ignorePolicyState ∧
        sameKey .ignorePolicyState (revision.stateRow number) state = false) ∨
      state = revision.stateRow number := by
    intro state hmem
    rcases mem_upsertRow_cases hmem with ⟨hold, hkey⟩ | rfl | ⟨old, hold, hkey, rfl⟩
    · exact .inl ⟨hstates ▸ hold, hkey⟩
    · exact .inr rfl
    · exact .inr (revision.stateRow_of_sameKey hkey)
  have hcurrent : revision.stateRow number ∈ db₂ .ignorePolicyState :=
    mem_upsertRow fun old hkey => revision.stateRow_of_sameKey hkey
  have hrows : ∀ t, ∀ row ∈ db₂ t, row ∈ db t ∨
      Storage.allowed t row = true ∧ Storage.named t row = true := by
    intro t row hrow
    by_cases hrevision : t = .ignorePolicyRevisions
    · subst hrevision
      rw [hrevisions] at hrow
      rcases List.mem_append.mp hrow with hold | hnew
      · exact .inl hold
      · rw [List.mem_singleton.mp hnew]
        exact .inr ⟨hallowed, rfl⟩
    by_cases hstateTable : t = .ignorePolicyState
    · subst hstateTable
      rcases hstate row hrow with ⟨hold, -⟩ | rfl
      · exact .inl hold
      · exact .inr ⟨rfl, rfl⟩
    · rw [hother t hrevision hstateTable] at hrow
      exact .inl hrow
  refine ⟨hvalid, fun t row hrow => (hrows t row hrow).elim (h.allowed t row) And.left,
    fun t row hrow => (hrows t row hrow).elim (h.named t row) And.right, ?_, ?_, ?_, ?_⟩
  · rw [hother .tasks (by decide) (by decide), hother .taskRuntime (by decide) (by decide)]
    exact h.runtime
  · rw [hrevisions]
    intro row hrow
    rcases List.mem_append.mp hrow with hold | hnew
    · exact h.numbers row hold
    · rw [List.mem_singleton.mp hnew]
      show number ≤ _
      rw [hnumber]
      exact min_le_right _ _
  · rw [hrevisions]
    intro row hrow
    rcases List.mem_append.mp hrow with hold | hnew
    · refine exists_upsertRow (fun old _ hid => hid) ?_
      rw [hstates]
      exact h.current row hold
    · rw [List.mem_singleton.mp hnew]
      exact ⟨_, hcurrent, rfl⟩
  · rw [hrevisions]
    intro state hmem row hrow hsame
    rcases hstate state hmem with ⟨hold, hkey⟩ | rfl
    · rcases List.mem_append.mp hrow with hrow | hrow
      · exact h.newest state hold row hrow hsame
      · rw [List.mem_singleton.mp hrow] at hsame
        have hkey' : sameKey .ignorePolicyState (revision.stateRow number) state = true :=
          sameValue_iff.mpr ⟨_, rfl, hsame⟩
        rw [hkey'] at hkey
        cases hkey
    · rcases List.mem_append.mp hrow with hrow | hrow
      · show row.revision ≤ number
        rw [hnumber]
        exact h.le_nextRevision hrow (Option.some.inj hsame).symm
      · rw [List.mem_singleton.mp hrow]
        exact le_refl _

theorem Consistent.markChunk (h : Consistent db) {transferId : TransferId} {chunkIndex : UInt64}
    (hrun : Storage.markChunk transferId chunkIndex db = .ok (u, db')) : Consistent db' := by
  obtain ⟨-, hkeys, rfl⟩ := upsert_ok hrun
  exact h.upsertRow rfl rfl rfl (fun _ _ => rfl) (fun old hold => ⟨rfl, hold⟩) hkeys

/-- **Every call keeps the tables consistent.**  A call that fails has changed nothing, so only
those that return have to be looked at. -/
theorem Call.consistent (call : Call) (h : Consistent db) (hrun : call.run db = .ok (u, db')) :
    Consistent db' := by
  cases call with
  | one s =>
    obtain ⟨hvalidate, hwrite⟩ := Statement.run_ok hrun
    exact s.consistent hvalidate h hwrite
  | deleteTask taskId =>
    rw [run] at hrun
    split at hrun
    · cases hrun
    rw [deleteRows_eq _ h.valid.foreignKeys] at hrun
    split at hrun
    · cases hrun
    cases hrun
    exact h.withoutTask _
  | recordIgnorePolicyRevision revision =>
    obtain ⟨_, -, hrest⟩ := ok_of_bind hrun
    obtain ⟨⟨number, db''⟩, hrows, heq⟩ := ok_of_map hrest
    cases heq
    exact h.revisionRows hrows
  | markTransferChunksCompleted transferId chunkIndices updatedAtMs =>
    obtain ⟨_, -, hrest⟩ := ok_of_bind hrun
    obtain ⟨⟨u₁, db₁⟩, hmarks, htouch⟩ := ok_of_bind hrest
    have hmarked := each_invariant (fun _ _ _ _ hmark hdb => hdb.markChunk hmark) hmarks h
    refine hmarked.updateOne ?_ ?_ ?_ htouch
    · rfl
    · exact fun _ _ => rfl
    · exact fun _ => rfl
  | inTransaction body thrown =>
    obtain ⟨⟨u₁, db₁⟩, hbody, hend⟩ := ok_of_bind hrun
    have hconsistent : Consistent db₁ := by
      refine each_invariant (fun s _ db₂ db₃ hrun₂ hdb₂ => ?_) hbody h
      obtain ⟨hvalidate, hwrite⟩ := Statement.run_ok hrun₂
      exact s.consistent hvalidate hdb₂ hwrite
    cases thrown with
    | none =>
      cases hend
      exact hconsistent
    | some e => cases hend

end Consistency

end Storage

end VeritasSync
