import VeritasSync.Storage.Integrity

/-!
# The migrations

`ApplyMigrations` runs at every start of the program.  It brings a database of an older version, or
a new file, to the tables of `Schema`, one transaction for each version; the program may end at any
statement, and the next start goes on.

A column that is not there yet reads as its default, so the rows have the columns of the last
version from the beginning.

A migration is a list of statements of SQL, and the model keeps that list: each statement says which
object it creates, which objects it needs and what it does to the rows.  Whether a migration can be
applied to a file is then a question about two lists, decided by evaluation for all eight versions
at once (`ready`).  What remains to be proved is about rows: that every version leaves them as the
functions want them, whatever was in them.

## What is here

* `Object` — what the migrations create; `Stored` — what is in the file.
* `migration` — the statements of each; `applyMigrations` — the function.
* `WellFormed v` — a file of version `v`.
* `upgraded` — what becomes of the rows: tasks get their runtime row with version 6, and those with
  a connection are offline with version 7.
* `Migrated` — what a start may do to a file; `wp_applyMigrations` says that it does no more,
  whatever statements the storage fails.
-/

set_option autoImplicit false

namespace VeritasSync

namespace Storage

open Exec Relational Transaction

/-! ## What there is to create -/

/-- The columns that a migration adds. -/
inductive Column where
  | relativePath | networkStatus | networkError
  deriving DecidableEq

inductive Index where
  | fileRecordsTask | transfersTaskState | transfersActiveDownload | versionLineageParent
  | engineEventsRecent | ignorePolicyHistory | taskMembersActive
  deriving DecidableEq

inductive Object where
  | table (table : TableName)
  | column (column : Column)
  | index (index : Index)
  /-- `task_runtime_after_task_insert`. -/
  | runtimeTrigger
  deriving DecidableEq

/-- The database in its file. -/
structure Stored where
  objects : List Object
  rows : Tables

/-- The file before the first start. -/
def emptyFile : Stored := ⟨[], newTables⟩

/-- What SQLite looks for when it creates the object. -/
def Object.needs : Object → List Object
  | .table _ => []
  | .column .relativePath => [.table .transfers]
  | .column .networkStatus => [.table .taskRuntime]
  | .column .networkError => [.table .taskRuntime]
  | .index .fileRecordsTask => [.table .fileRecords]
  | .index .transfersTaskState => [.table .transfers]
  | .index .transfersActiveDownload => [.table .transfers, .column .relativePath]
  | .index .versionLineageParent => [.table .versionLineage]
  | .index .engineEventsRecent => [.table .engineEvents]
  | .index .ignorePolicyHistory => [.table .ignorePolicyRevisions]
  | .index .taskMembersActive => [.table .taskMembers]
  | .runtimeTrigger => [.table .tasks]

/-- A new table is empty, and a new column has its default in every row. -/
def Object.fill : Object → Tables → Tables
  | .table t, rows => Function.update rows t []
  | .column .relativePath, rows =>
    updateRows .transfers (fun _ => true) (fun row => { row with relativePath := [] }) rows
  | .column .networkStatus, rows =>
    updateRows .taskRuntime (fun _ => true)
      (fun row => { row with networkStatus := ascii "unpaired" }) rows
  | .column .networkError, rows =>
    updateRows .taskRuntime (fun _ => true) (fun row => { row with networkError := none }) rows
  | .index _, rows => rows
  | .runtimeTrigger, rows => rows

/-! ## Statements of migrations -/

/-- `INSERT` of some rows. -/
def insertAll (table : TableName) (new : List (Row table)) (rows : Tables) :
    Except Error Tables :=
  if new.any fun row => !allowed table row then
    .error (.runtimeError "CHECK constraint failed")
  else if ¬ (rows table ++ new).Pairwise fun a b => sameKey table a b = false then
    .error (.runtimeError "UNIQUE constraint failed")
  else
    Relational.execute schema (.runtimeError "FOREIGN KEY constraint failed")
      (fun rows => Function.update rows table (rows table ++ new)) rows

theorem insertAll_ok {table : TableName} {new : List (Row table)} {rows : Tables}
    (hallowed : (new.any fun row => !allowed table row) = false)
    (hkeys : (rows table ++ new).Pairwise fun a b => sameKey table a b = false)
    (hforeign : ForeignKeys schema (Function.update rows table (rows table ++ new))) :
    insertAll table new rows = .ok (Function.update rows table (rows table ++ new)) := by
  rw [insertAll, hallowed, if_neg Bool.false_ne_true, if_neg (not_not.mpr hkeys), execute_eq_ok_iff]
  exact ⟨hforeign, rfl⟩

inductive MigrationStatement where
  | create (object : Object)
  /-- `INSERT INTO task_runtime(task_id) SELECT task_id FROM tasks`. -/
  | insertRuntime
  /-- `UPDATE task_runtime SET network_status='offline' WHERE task_id IN (…)`. -/
  | setOffline

def MigrationStatement.creates : MigrationStatement → List Object
  | .create object => [object]
  | .insertRuntime => []
  | .setOffline => []

def MigrationStatement.needs : MigrationStatement → List Object
  | .create object => object.needs
  | .insertRuntime => [.table .taskRuntime, .table .tasks]
  | .setOffline => [.table .taskRuntime, .column .networkStatus, .table .taskConnections]

/-- The row of a task, with the defaults of the table. -/
def runtimeDefaults (taskId : Option Bytes) : TaskRuntimeRow :=
  ⟨taskId, true, ascii "idle", true, none, none, ascii "unpaired", none⟩

/-- `task_id IN (SELECT task_id FROM task_connections)`. -/
def connected (rows : Tables) (row : TaskRuntimeRow) : Bool :=
  (rows .taskConnections).any fun connection => sameValue row.taskId connection.taskId

def offline (row : TaskRuntimeRow) : TaskRuntimeRow :=
  { row with networkStatus := ascii "offline" }

/-- The rows after the statement. -/
def MigrationStatement.change : MigrationStatement → Tables → Except Error Tables
  | .create object, rows => .ok (object.fill rows)
  | .insertRuntime, rows =>
    insertAll .taskRuntime ((rows .tasks).map fun task => runtimeDefaults task.taskId) rows
  | .setOffline, rows =>
    if (rows .taskRuntime).any fun row =>
        connected rows row && !allowed .taskRuntime (offline row) then
      .error (.runtimeError "CHECK constraint failed")
    else
      Relational.execute schema (.runtimeError "FOREIGN KEY constraint failed")
        (updateRows .taskRuntime (connected rows) offline) rows

def MigrationStatement.write (m : MigrationStatement) (s : Stored) :
    Except Error (Unit × Stored) :=
  if m.creates.any (· ∈ s.objects) then .error (.runtimeError "already exists")
  else if m.needs.any (· ∉ s.objects) then .error (.runtimeError "no such table or column")
  else (m.change s.rows).map fun rows => ((), ⟨s.objects ++ m.creates, rows⟩)

/-! ## Migrations -/

/-- `kMigration1` to `kMigration8`. -/
def migration : Nat → List MigrationStatement
  | 1 => [.create (.table .tasks), .create (.table .fileRecords), .create (.table .transfers),
      .create (.table .transferChunks), .create (.table .peerState), .create (.table .conflicts),
      .create (.index .fileRecordsTask), .create (.index .transfersTaskState)]
  | 2 => [.create (.column .relativePath), .create (.index .transfersActiveDownload)]
  | 3 => [.create (.table .versionLineage), .create (.index .versionLineageParent),
      .create (.table .taskClocks)]
  | 4 => [.create (.table .engineEvents), .create (.index .engineEventsRecent)]
  | 5 => [.create (.table .ignorePolicyRevisions), .create (.table .ignorePolicyState),
      .create (.index .ignorePolicyHistory)]
  | 6 => [.create (.table .taskRuntime), .insertRuntime, .create .runtimeTrigger,
      .create (.table .taskConnections), .create (.table .taskMembers),
      .create (.index .taskMembersActive)]
  | 7 => [.create (.column .networkStatus), .create (.column .networkError), .setOffline]
  | 8 => [.create (.table .pendingIgnorePolicies)]
  | _ => []

/-- `CREATE TABLE IF NOT EXISTS schema_migrations …`. -/
def createVersions (s : Stored) : Except Error (Unit × Stored) :=
  if .table .schemaMigrations ∈ s.objects then .ok ((), s)
  else MigrationStatement.write (.create (.table .schemaMigrations)) s

/-- `SchemaVersion`, which reads the column as a C++ `int`. -/
def schemaVersion (s : Stored) : Except Error (Int × Stored) :=
  if .table .schemaMigrations ∉ s.objects then
    .error (.runtimeError "prepare schema version: no such table")
  else
    let last := ((s.rows .schemaMigrations).map SchemaMigrationRow.version).max?.getD 0
    .ok ((BitVec.ofInt 32 last).toInt, s)

/-- `INSERT INTO schema_migrations(version, applied_at_ms) VALUES(…, unixepoch() * 1000)`. -/
def recordVersion (version : Nat) (nowMs : Int) (s : Stored) : Except Error (Unit × Stored) :=
  if .table .schemaMigrations ∉ s.objects then .error (.runtimeError "no such table")
  else (insertAll .schemaMigrations [⟨version, nowMs⟩] s.rows).map fun rows =>
    ((), { s with rows := rows })

section Functions

variable (fault : Nat → Option Error) (nowMs : Nat → Int)

/-- The transaction of one version. -/
def migrate (version : Nat) : Exec (Connection Stored) Error Unit :=
  Transaction.inTransaction fault do
    (migration version).forM fun m => statement fault m.write
    statement fault (recordVersion version (nowMs version))

/-- `Database::ApplyMigrations`. -/
def applyMigrations : Exec (Connection Stored) Error Unit := do
  statement fault createVersions
  (List.range' 1 8).forM fun version => do
    let current ← statement fault schemaVersion
    when (current < version) (migrate fault nowMs version)

end Functions

/-! ## Well-formed files -/

/-- What a file of this version has. -/
def objectsAt (version : Nat) : List Object :=
  .table .schemaMigrations ::
    (List.range' 1 version).flatMap fun n => (migration n).flatMap MigrationStatement.creates

/-- Where the object will be, there is nothing yet. -/
def Object.Blank : Object → Tables → Prop
  | .table t, rows => rows t = []
  | .column .relativePath, rows => ∀ row ∈ rows .transfers, row.relativePath = []
  | .column .networkStatus, rows => ∀ row ∈ rows .taskRuntime, row.networkStatus = ascii "unpaired"
  | .column .networkError, rows => ∀ row ∈ rows .taskRuntime, row.networkError = none
  | .index _, _ => True
  | .runtimeTrigger, _ => True

theorem updateRows_eq_self {table : TableName} {selects : Row table → Bool}
    {change : Row table → Row table} {rows : Tables}
    (h : ∀ row ∈ rows table, change row = row) : updateRows table selects change rows = rows := by
  rw [updateRows, Function.update_eq_self_iff]
  refine (List.map_congr_left fun row hrow => ?_).trans (List.map_id _)
  split
  · exact h row hrow
  · rfl

theorem Object.fill_of_blank {object : Object} {rows : Tables} (h : object.Blank rows) :
    object.fill rows = rows := by
  cases object with
  | table t => exact Function.update_eq_self_iff.mpr h.symm
  | column column =>
    cases column with
    | relativePath =>
      exact updateRows_eq_self fun row hrow => by rw [← h row hrow]
    | networkStatus =>
      exact updateRows_eq_self fun row hrow => by rw [← h row hrow]
    | networkError =>
      exact updateRows_eq_self fun row hrow => by rw [← h row hrow]
  | index index => rfl
  | runtimeTrigger => rfl

/-- The rows as the programs have left them. -/
structure Sound (objects : List Object) (rows : Tables) : Prop where
  blank : ∀ object, object ∉ objects → object.Blank rows
  valid : Valid schema rows
  allowed : ∀ table, ∀ row ∈ rows table, allowed table row = true
  named : ∀ table, ∀ row ∈ rows table, named table row = true
  runtime : .table .taskRuntime ∈ objects →
    ∀ row ∈ rows .tasks, ∃ runtime ∈ rows .taskRuntime, runtime.taskId = row.taskId
  numbers : ∀ revision ∈ rows .ignorePolicyRevisions, revision.revision ≤ Database.int64Max
  current : ∀ revision ∈ rows .ignorePolicyRevisions,
    ∃ state ∈ rows .ignorePolicyState, state.taskId = some revision.taskId
  newest : ∀ state ∈ rows .ignorePolicyState, ∀ revision ∈ rows .ignorePolicyRevisions,
    state.taskId = some revision.taskId → revision.revision ≤ state.revision

/-- A file of this version. -/
structure WellFormed (version : Nat) (s : Stored) : Prop where
  known : version ≤ 8
  /-- Before the first start there is nothing. -/
  objects : s.objects = objectsAt version ∨ s.objects = [] ∧ version = 0
  versions : (s.rows .schemaMigrations).map SchemaMigrationRow.version =
    (List.range' 1 version).map Int.ofNat
  rows : Sound s.objects s.rows

theorem wellFormed_emptyFile : WellFormed 0 emptyFile where
  known := Nat.zero_le 8
  objects := .inr ⟨rfl, rfl⟩
  versions := rfl
  rows :=
    { blank := fun object _ => by
        cases object with
        | table t => rfl
        | column column => cases column <;> exact fun _ h => absurd h List.not_mem_nil
        | index index => trivial
        | runtimeTrigger => trivial
      valid := consistent_newTables.valid
      allowed := consistent_newTables.allowed
      named := consistent_newTables.named
      runtime := fun _ => consistent_newTables.runtime
      numbers := consistent_newTables.numbers
      current := consistent_newTables.current
      newest := consistent_newTables.newest }

variable {version : Nat} {s s' : Stored}

/-- With all objects the functions find what they rely on. -/
theorem Sound.consistent {objects : List Object} {rows : Tables} (h : Sound objects rows)
    (hruntime : .table .taskRuntime ∈ objects) : Consistent rows :=
  ⟨h.valid, h.allowed, h.named, h.runtime hruntime, h.numbers, h.current, h.newest⟩

theorem WellFormed.consistent (h : WellFormed 8 s) : Consistent s.rows := by
  refine h.rows.consistent ?_
  rw [h.objects.resolve_right fun hnone => absurd hnone.2 (by decide)]
  decide

/-! ## One version -/

/-- The statements find what they need, and none creates what is there. -/
def ready : List MigrationStatement → List Object → Bool
  | [], _ => true
  | m :: rest, objects =>
    m.creates.all (· ∉ objects) && m.needs.all (· ∈ objects) && ready rest (objects ++ m.creates)

/-- What they do to the rows. -/
def changes : List MigrationStatement → Tables → Except Error Tables
  | [], rows => .ok rows
  | m :: rest, rows => m.change rows >>= changes rest

theorem MigrationStatement.write_of_ready {m : MigrationStatement}
    (hcreates : m.creates.all (· ∉ s.objects) = true)
    (hneeds : m.needs.all (· ∈ s.objects) = true) :
    m.write s = (m.change s.rows).map fun rows => ((), ⟨s.objects ++ m.creates, rows⟩) := by
  have hnew : m.creates.any (· ∈ s.objects) = false := by
    refine List.any_eq_false.mpr fun object hobject => ?_
    simpa using List.all_eq_true.mp hcreates object hobject
  have hthere : m.needs.any (· ∉ s.objects) = false := by
    refine List.any_eq_false.mpr fun object hobject => ?_
    simpa using List.all_eq_true.mp hneeds object hobject
  rw [write, hnew, hthere]
  rfl

theorem each_write {ms : List MigrationStatement} (h : ready ms s.objects = true) :
    each MigrationStatement.write ms s = (changes ms s.rows).map fun rows =>
      ((), ⟨s.objects ++ ms.flatMap MigrationStatement.creates, rows⟩) := by
  induction ms generalizing s with
  | nil => rw [List.flatMap_nil, List.append_nil]; rfl
  | cons m rest ih =>
    rw [ready, Bool.and_eq_true, Bool.and_eq_true] at h
    obtain ⟨⟨hcreates, hneeds⟩, hrest⟩ := h
    rw [each, MigrationStatement.write_of_ready hcreates hneeds, changes]
    cases m.change s.rows with
    | error e => rfl
    | ok rows =>
      have hafter : ready rest (Stored.mk (s.objects ++ m.creates) rows).objects = true := hrest
      show each MigrationStatement.write rest ⟨s.objects ++ m.creates, rows⟩ = _
      rw [ih hafter, List.flatMap_cons, List.append_assoc]
      rfl

/-- **The statements of every version fit the one before it.**  No table is created that is there,
no column added that is there, and what is referred to exists. -/
theorem ready_migration : ∀ v < 8, ready (migration (v + 1)) (objectsAt v) = true := by
  decide

theorem objectsAt_succ (v : Nat) :
    objectsAt (v + 1) = objectsAt v ++ (migration (v + 1)).flatMap MigrationStatement.creates := by
  rw [objectsAt, objectsAt, List.range'_concat, List.flatMap_append, List.flatMap_singleton,
    List.cons_append, Nat.one_mul, Nat.add_comm 1 v]

/-! ## What becomes of the rows

Most statements create something empty.  Two of the versions look at rows that are already there:
the sixth gives every task a runtime row, and the seventh sets some of these rows to offline. -/

/-- The rows after the migration to this version. -/
def upgrade : Nat → Tables → Tables
  | 6, rows => Function.update rows .taskRuntime
      ((rows .tasks).map fun task => runtimeDefaults task.taskId)
  | 7, rows => Function.update rows .taskRuntime
      ((rows .taskRuntime).map fun row => if connected rows row then offline row else row)
  | _, rows => rows

theorem upgrade_of_ne {version : Nat} (hsix : version ≠ 6) (hseven : version ≠ 7) (rows : Tables) :
    upgrade version rows = rows := by
  unfold upgrade
  split
  · exact absurd rfl hsix
  · exact absurd rfl hseven
  · rfl

theorem upgrade_apply {table : TableName} (h : table ≠ .taskRuntime) (version : Nat)
    (rows : Tables) : upgrade version rows table = rows table := by
  unfold upgrade
  split
  · exact Function.update_of_ne h ..
  · exact Function.update_of_ne h ..
  · rfl

section Rows

variable {objects objects' : List Object} {rows : Tables} {new : List TaskRuntimeRow}

/-- Nothing refers to `task_runtime`. -/
theorem foreignKeys_runtime (h : ForeignKeys schema rows)
    (hnew : ∀ row ∈ new, ∃ task ∈ rows .tasks, sameValue row.taskId task.taskId = true) :
    ForeignKeys schema (Function.update rows .taskRuntime new) := by
  have hparents : ∀ t, ∀ ref ∈ schema.references t, ref.parent ≠ .taskRuntime := by decide
  intro t ref href row hrow hbound
  rw [Function.update_of_ne (hparents t ref href)]
  by_cases ht : t = .taskRuntime
  · subst ht
    rw [Function.update_self] at hrow
    cases List.mem_singleton.mp href
    exact hnew row hrow
  · rw [Function.update_of_ne ht] at hrow
    exact h t ref href row hrow hbound

/-- New rows in `task_runtime`, one for each task. -/
theorem Sound.update_runtime (h : Sound objects rows) (hobjects : objects ⊆ objects')
    (htable : .table .taskRuntime ∈ objects')
    (hkeys : new.Pairwise fun a b => sameKey .taskRuntime a b = false)
    (htasks : ∀ row ∈ new, ∃ task ∈ rows .tasks, row.taskId = task.taskId)
    (hallowed : ∀ row ∈ new, Storage.allowed .taskRuntime row = true)
    (hruntime : ∀ task ∈ rows .tasks, ∃ row ∈ new, row.taskId = task.taskId)
    (hstatus : .column .networkStatus ∈ objects' ∨
      ∀ row ∈ new, row.networkStatus = ascii "unpaired")
    (herror : .column .networkError ∈ objects' ∨ ∀ row ∈ new, row.networkError = none) :
    Sound objects' (Function.update rows .taskRuntime new) := by
  have hother : ∀ t, t ≠ .taskRuntime → Function.update rows .taskRuntime new t = rows t :=
    fun t ht => Function.update_of_ne ht ..
  have hnamed : ∀ row ∈ new, Storage.named .taskRuntime row = true := by
    intro row hrow
    obtain ⟨task, htask, hid⟩ := htasks row hrow
    have hname : task.taskId.isSome = true := h.named .tasks task htask
    exact (congrArg Option.isSome hid).trans hname
  have hparents : ∀ row ∈ new, ∃ task ∈ rows .tasks, sameValue row.taskId task.taskId = true := by
    intro row hrow
    obtain ⟨task, htask, hid⟩ := htasks row hrow
    obtain ⟨id, hsome⟩ := Option.isSome_iff_exists.mp (hnamed row hrow)
    exact ⟨task, htask, sameValue_iff.mpr ⟨id, hsome, hid.symm.trans hsome⟩⟩
  refine ⟨fun object hobject => ?_, ⟨fun t => ?_, foreignKeys_runtime h.valid.foreignKeys hparents⟩,
    fun t row hrow => ?_, fun t row hrow => ?_, fun _ row hrow => ?_, ?_, ?_, ?_⟩
  -- what the version does not have yet is blank, as before
  · have hblank := h.blank object fun hmem => hobject (hobjects hmem)
    cases object with
    | table t =>
      have ht : t ≠ .taskRuntime := by
        rintro rfl
        exact hobject htable
      exact (hother t ht).trans hblank
    | column column =>
      cases column with
      | relativePath => exact hblank
      | networkStatus =>
        rw [Object.Blank, Function.update_self]
        exact hstatus.resolve_left hobject
      | networkError =>
        rw [Object.Blank, Function.update_self]
        exact herror.resolve_left hobject
    | index index => trivial
    | runtimeTrigger => trivial
  · by_cases ht : t = .taskRuntime
    · subst ht
      rw [Function.update_self]
      exact hkeys
    · rw [hother t ht]
      exact h.valid.keys t
  · by_cases ht : t = .taskRuntime
    · subst ht
      rw [Function.update_self] at hrow
      exact hallowed row hrow
    · rw [hother t ht] at hrow
      exact h.allowed t row hrow
  · by_cases ht : t = .taskRuntime
    · subst ht
      rw [Function.update_self] at hrow
      exact hnamed row hrow
    · rw [hother t ht] at hrow
      exact h.named t row hrow
  · rw [hother .tasks (by decide)] at hrow
    rw [Function.update_self]
    exact hruntime row hrow
  · exact h.numbers
  · exact h.current
  · exact h.newest

/-- A runtime row belongs to a task. -/
theorem Sound.task_of_runtime (h : Sound objects rows) {row : TaskRuntimeRow}
    (hrow : row ∈ rows .taskRuntime) : ∃ task ∈ rows .tasks, row.taskId = task.taskId := by
  obtain ⟨task, htask, hrefers⟩ := h.valid.foreignKeys .taskRuntime (toTasks _ .cascade)
    (List.mem_singleton_self _) row hrow (h.named .taskRuntime row hrow)
  obtain ⟨id, hid, hid'⟩ := sameValue_iff.mp hrefers
  exact ⟨task, htask, hid.trans hid'.symm⟩

/-- Objects that hold nothing yet. -/
theorem Sound.create (h : Sound objects rows) (hobjects : objects ⊆ objects')
    (hruntime : .table .taskRuntime ∈ objects' → .table .taskRuntime ∈ objects) :
    Sound objects' rows :=
  ⟨fun object hobject => h.blank object fun hmem => hobject (hobjects hmem), h.valid, h.allowed,
    h.named, fun hmem => h.runtime (hruntime hmem), h.numbers, h.current, h.newest⟩

theorem objectsAt_subset (v : Nat) : objectsAt v ⊆ objectsAt (v + 1) := by
  rw [objectsAt_succ]
  exact List.subset_append_left _ _

/-- **The rows stay sound.**  Every version but the sixth leaves them as they are. -/
theorem Sound.upgrade (h : Sound (objectsAt version) rows) :
    Sound (objectsAt (version + 1)) (upgrade (version + 1) rows) := by
  by_cases hsix : version = 5
  · subst hsix
    -- every task gets a runtime row, blank in the columns that come later
    refine h.update_runtime (objectsAt_subset 5) (by decide) ?_ ?_ ?_ ?_ (.inr ?_) (.inr ?_)
    · exact List.pairwise_map.mpr (h.valid.keys .tasks)
    · intro row hrow
      obtain ⟨task, htask, rfl⟩ := List.mem_map.mp hrow
      exact ⟨task, htask, rfl⟩
    · intro row hrow
      obtain ⟨task, htask, rfl⟩ := List.mem_map.mp hrow
      rfl
    · exact fun task htask => ⟨_, List.mem_map_of_mem htask, rfl⟩
    · intro row hrow
      obtain ⟨task, htask, rfl⟩ := List.mem_map.mp hrow
      rfl
    · intro row hrow
      obtain ⟨task, htask, rfl⟩ := List.mem_map.mp hrow
      rfl
  by_cases hseven : version = 6
  · subst hseven
    -- a connected task goes offline; its row is the same otherwise
    have hid : ∀ row : TaskRuntimeRow,
        (if connected rows row then offline row else row).taskId = row.taskId := by
      intro row
      split <;> rfl
    refine h.update_runtime (objectsAt_subset 6) (by decide) ?_ ?_ ?_ ?_ (.inl (by decide))
      (.inl (by decide))
    · exact pairwise_map_change sameKey_comm (h.valid.keys .taskRuntime) fun _ _ => rfl
    · intro row hrow
      obtain ⟨old, hold, rfl⟩ := List.mem_map.mp hrow
      rw [hid]
      exact h.task_of_runtime hold
    · intro row hrow
      obtain ⟨old, hold, rfl⟩ := List.mem_map.mp hrow
      have hallowed := of_decide_eq_true (h.allowed .taskRuntime old hold)
      split
      · exact decide_eq_true ⟨hallowed.1, (by decide : ascii "offline" ∈ networkStatuses)⟩
      · exact decide_eq_true hallowed
    · intro task htask
      obtain ⟨row, hrow, hsame⟩ := h.runtime (by decide) task htask
      exact ⟨_, List.mem_map_of_mem hrow, (hid row).trans hsame⟩
  -- the other migrations create objects and write no row
  · have hrows : Storage.upgrade (version + 1) rows = rows :=
      upgrade_of_ne (by omega) (by omega) rows
    rw [hrows]
    refine h.create (objectsAt_subset version) fun hmem => ?_
    rw [objectsAt_succ] at hmem
    refine (List.mem_append.mp hmem).resolve_right fun hnew => ?_
    have hcreated : ∀ n, n ≠ 6 →
        .table .taskRuntime ∉ (migration n).flatMap MigrationStatement.creates := by
      intro n hn
      unfold migration
      split
      all_goals first
        | decide
        | exact absurd rfl hn
    exact hcreated (version + 1) (by omega) hnew

/-- Statements that create what holds nothing yet. -/
theorem changes_create {created : List Object} (h : ∀ object ∈ created, object.Blank rows) :
    changes (created.map .create) rows = .ok rows := by
  induction created with
  | nil => rfl
  | cons object rest ih =>
    rw [List.map_cons, changes, MigrationStatement.change,
      Object.fill_of_blank (h object List.mem_cons_self)]
    exact ih fun other hother => h other (List.mem_cons_of_mem _ hother)

theorem changes_append {ms : List MigrationStatement} {rows' : Tables}
    (h : changes ms rows = .ok rows') (ms' : List MigrationStatement) :
    changes (ms ++ ms') rows = changes ms' rows' := by
  induction ms generalizing rows with
  | nil =>
    cases h
    rfl
  | cons m rest ih =>
    obtain ⟨rows₁, hm, hrest⟩ := ok_of_bind h
    rw [List.cons_append, changes, hm]
    exact ih hrest

/-- Every task gets its row. -/
theorem Sound.change_insertRuntime (h : Sound (objectsAt 5) rows) :
    MigrationStatement.insertRuntime.change rows = .ok (Storage.upgrade 6 rows) := by
  have hnone : rows .taskRuntime = [] := h.blank (.table .taskRuntime) (by decide)
  set new := (rows .tasks).map fun task => runtimeDefaults task.taskId with hdefaults
  have hkeys : (rows .taskRuntime ++ new).Pairwise
      fun a b => sameKey .taskRuntime a b = false := by
    rw [hnone]
    exact List.pairwise_map.mpr (h.valid.keys .tasks)
  have hallowed : (new.any fun row => !Storage.allowed .taskRuntime row) = false := by
    refine List.any_eq_false.mpr fun row hrow => ?_
    obtain ⟨task, htask, rfl⟩ := List.mem_map.mp hrow
    exact Bool.false_ne_true
  have hrows : Function.update rows .taskRuntime (rows .taskRuntime ++ new) =
      Storage.upgrade 6 rows := by
    rw [hnone]
    rfl
  rw [← hrows]
  exact insertAll_ok hallowed hkeys (hrows ▸ h.upgrade.valid.foreignKeys)

/-- Every task with a connection is offline. -/
theorem Sound.change_setOffline (h : Sound (objectsAt 6) rows) :
    MigrationStatement.setOffline.change rows = .ok (Storage.upgrade 7 rows) := by
  have hallowed : ((rows .taskRuntime).any fun row =>
      connected rows row && !Storage.allowed .taskRuntime (offline row)) = false := by
    refine List.any_eq_false.mpr fun row hrow => ?_
    have hstatus := of_decide_eq_true (h.allowed .taskRuntime row hrow)
    have hoffline : Storage.allowed .taskRuntime (offline row) = true :=
      decide_eq_true ⟨hstatus.1, (by decide : ascii "offline" ∈ networkStatuses)⟩
    rw [hoffline, Bool.not_true, Bool.and_false]
    exact Bool.false_ne_true
  rw [MigrationStatement.change, hallowed, if_neg Bool.false_ne_true, execute_eq_ok_iff]
  exact ⟨h.upgrade.valid.foreignKeys, rfl⟩

/-- **What the statements of a version do to sound rows.**  Only the sixth version writes rows: it
gives each task its row of runtime state. -/
theorem Sound.changes (h : Sound (objectsAt version) rows) (hversion : version < 8) :
    Storage.changes (migration (version + 1)) rows = .ok (Storage.upgrade (version + 1) rows) := by
  by_cases hsix : version = 5
  · subst hsix
    have hfirst : Storage.changes ([Object.table .taskRuntime].map .create) rows = .ok rows :=
      changes_create fun object hobject => h.blank object (by
        rw [List.mem_singleton.mp hobject]
        decide)
    have hrest : ∀ object ∈ [Object.runtimeTrigger, .table .taskConnections, .table .taskMembers,
        .index .taskMembersActive], object.Blank (Storage.upgrade 6 rows) := by
      have hconnections : rows .taskConnections = [] :=
        h.blank (.table .taskConnections) (by decide)
      have hmembers : rows .taskMembers = [] := h.blank (.table .taskMembers) (by decide)
      simp only [List.forall_mem_cons]
      exact ⟨trivial, hconnections, hmembers, trivial, fun _ h => absurd h List.not_mem_nil⟩
    refine (changes_append hfirst (.insertRuntime :: List.map .create
      [Object.runtimeTrigger, .table .taskConnections, .table .taskMembers,
        .index .taskMembersActive])).trans ?_
    rw [Storage.changes, h.change_insertRuntime]
    exact changes_create hrest
  by_cases hseven : version = 6
  · subst hseven
    have hfirst : Storage.changes ([Object.column .networkStatus, .column .networkError].map
        .create) rows = .ok rows := by
      refine changes_create fun object hobject => h.blank object ?_
      revert object
      decide
    refine (changes_append hfirst [.setOffline]).trans ?_
    rw [Storage.changes, h.change_setOffline]
    rfl
  · have hrows : Storage.upgrade (version + 1) rows = rows :=
      upgrade_of_ne (by omega) (by omega) rows
    have hcreates : ∀ v < 8, v ≠ 5 → v ≠ 6 → ∃ created : List Object,
        migration (v + 1) = created.map .create ∧ ∀ object ∈ created, object ∉ objectsAt v := by
      intro v hv hfive hsix'
      refine ⟨(migration (v + 1)).flatMap MigrationStatement.creates, ?_⟩
      interval_cases v
      all_goals first
        | exact ⟨rfl, by decide⟩
        | exact absurd rfl hfive
        | exact absurd rfl hsix'
    obtain ⟨created, hmigration, hnew⟩ := hcreates version hversion hsix hseven
    rw [hmigration, hrows]
    exact changes_create fun object hobject => h.blank object (hnew object hobject)

/-- The row of a version, in the table of the versions. -/
theorem Sound.insertVersion (h : Sound objects rows)
    (htable : .table .schemaMigrations ∈ objects) {row : SchemaMigrationRow}
    (hnew : (rows .schemaMigrations).any (sameKey .schemaMigrations row) = false) :
    Sound objects (insertRow .schemaMigrations row rows) := by
  have hother : ∀ t, t ≠ .schemaMigrations → insertRow .schemaMigrations row rows t = rows t :=
    fun t ht => insertRow_of_ne ht
  have hparents : ∀ t, ∀ ref ∈ schema.references t, ref.parent ≠ .schemaMigrations ∧
      t ≠ .schemaMigrations := by decide
  have hkeys : ForeignKeys schema (insertRow .schemaMigrations row rows) := by
    intro t ref href child hchild hbound
    rw [hother _ (hparents t ref href).2] at hchild
    rw [hother _ (hparents t ref href).1]
    exact h.valid.foreignKeys t ref href child hchild hbound
  refine ⟨fun object hobject => ?_, h.valid.insertRow sameKey_comm hnew hkeys,
    fun t child hchild => ?_, fun t child hchild => ?_, h.runtime, h.numbers, h.current, h.newest⟩
  · have hblank := h.blank object hobject
    cases object with
    | table t =>
      have ht : t ≠ .schemaMigrations := by
        rintro rfl
        exact hobject htable
      exact (hother t ht).trans hblank
    | column column => cases column <;> exact hblank
    | index index => trivial
    | runtimeTrigger => trivial
  · by_cases ht : t = .schemaMigrations
    · subst ht
      rfl
    · rw [hother t ht] at hchild
      exact h.allowed t child hchild
  · by_cases ht : t = .schemaMigrations
    · subst ht
      rfl
    · rw [hother t ht] at hchild
      exact h.named t child hchild

end Rows

/-! ## A start

`ApplyMigrations` reads the version of the file and goes through the migrations after it.  Each is a
transaction of its own, so a program that ends in the middle leaves a file of some version in
between, and the next start is again a start on a well-formed file. -/

/-- The file after the migration to the next version. -/
def nextVersion (version : Nat) (nowMs : Int) (s : Stored) : Stored :=
  ⟨objectsAt (version + 1), insertRow .schemaMigrations ⟨(version + 1 : Nat), nowMs⟩
    (upgrade (version + 1) s.rows)⟩

theorem nextVersion_versions (nowMs : Int) : (nextVersion version nowMs s).rows .schemaMigrations =
    s.rows .schemaMigrations ++ [⟨(version + 1 : Nat), nowMs⟩] := by
  have hrows : upgrade (version + 1) s.rows .schemaMigrations = s.rows .schemaMigrations :=
    upgrade_apply (by decide) _ _
  have hself : ∀ (row : Row .schemaMigrations) (rows : Tables),
      insertRow .schemaMigrations row rows .schemaMigrations = rows .schemaMigrations ++ [row] :=
    fun row rows => insertRow_self
  rw [← hrows]
  exact hself _ _

theorem nextVersion_apply {table : TableName} (h : table ≠ .schemaMigrations) (nowMs : Int) :
    (nextVersion version nowMs s).rows table = upgrade (version + 1) s.rows table :=
  insertRow_of_ne h

theorem WellFormed.any_version (h : WellFormed version s) (n : Nat) (hn : version < n)
    (nowMs : Int) :
    (s.rows .schemaMigrations).any (sameKey .schemaMigrations ⟨n, nowMs⟩) = false := by
  refine List.any_eq_false.mpr fun row hrow hsame => ?_
  have hversion : row.version ∈ (List.range' 1 version).map Int.ofNat := by
    rw [← h.versions]
    exact List.mem_map_of_mem hrow
  obtain ⟨m, hm, heq⟩ := List.mem_map.mp hversion
  have hkey : (n : Int) = row.version := of_decide_eq_true hsame
  have hle := (List.mem_range'_1.mp hm).2
  rw [← heq] at hkey
  have := Int.ofNat.inj hkey
  omega

/-- The statements of one version, when the storage does not fail. -/
def runMigration (version : Nat) (nowMs : Int) (s : Stored) : Except Error (Unit × Stored) :=
  each MigrationStatement.write (migration version) s >>= fun r => recordVersion version nowMs r.2

/-- **They lead to the next version.**  The hypothesis that the statements are ready is a matter of
evaluation, so nothing about any single version is used. -/
theorem WellFormed.run_migration (h : WellFormed version s)
    (hobjects : s.objects = objectsAt version) (hversion : version < 8) (nowMs : Int) :
    runMigration (version + 1) nowMs s = .ok ((), nextVersion version nowMs s) ∧
      WellFormed (version + 1) (nextVersion version nowMs s) := by
  have hrows : Sound (objectsAt version) s.rows := hobjects ▸ h.rows
  have hready : ready (migration (version + 1)) s.objects = true := by
    rw [hobjects]
    exact ready_migration version hversion
  have hversions : upgrade (version + 1) s.rows .schemaMigrations = s.rows .schemaMigrations :=
    upgrade_apply (by decide) _ _
  have hnew : (upgrade (version + 1) s.rows .schemaMigrations).any
      (sameKey .schemaMigrations ⟨(version + 1 : Nat), nowMs⟩) = false := by
    rw [hversions]
    exact h.any_version _ (Nat.lt_succ_self version) nowMs
  have htable : .table .schemaMigrations ∈ objectsAt (version + 1) := List.mem_cons_self
  have hsound := hrows.upgrade.insertVersion htable hnew
  constructor
  · rw [runMigration, each_write hready, hrows.changes hversion, hobjects, ← objectsAt_succ]
    show recordVersion (version + 1) nowMs ⟨objectsAt (version + 1), _⟩ = _
    have hinsert : insertAll .schemaMigrations [⟨(version + 1 : Nat), nowMs⟩]
        (upgrade (version + 1) s.rows) = .ok (insertRow .schemaMigrations
          ⟨(version + 1 : Nat), nowMs⟩ (upgrade (version + 1) s.rows)) := by
      have hkeys := hsound.valid.keys .schemaMigrations
      rw [insertRow_self] at hkeys
      exact insertAll_ok rfl hkeys hsound.valid.foreignKeys
    rw [recordVersion, if_neg (not_not.mpr htable), hinsert]
    rfl
  · refine ⟨hversion, .inl rfl, ?_, hsound⟩
    show ((nextVersion version nowMs s).rows .schemaMigrations).map _ = _
    rw [nextVersion_versions, List.map_append, h.versions, List.range'_concat, List.map_append,
      Nat.one_mul, Nat.add_comm 1 version]
    rfl

/-- The rows after the migrations of these versions. -/
def upgraded (version version' : Nat) (rows : Tables) : Tables :=
  (List.range' (version + 1) (version' - version)).foldl (fun rows n => upgrade n rows) rows

/-- What a start may do to a file. -/
structure Migrated (version version' : Nat) (s s' : Stored) : Prop where
  before : WellFormed version s
  after : WellFormed version' s'
  le : version ≤ version'
  rows : ∀ table, table ≠ .schemaMigrations → s'.rows table = upgraded version version' s.rows table
  versions : s.rows .schemaMigrations <+: s'.rows .schemaMigrations

theorem Migrated.refl (h : WellFormed version s) : Migrated version version s s :=
  ⟨h, h, le_refl _, fun table _ => by rw [upgraded, Nat.sub_self]; rfl, List.prefix_refl _⟩

theorem upgrade_congr {rows rows' : Tables}
    (h : ∀ table, table ≠ .schemaMigrations → rows' table = rows table) (n : Nat)
    (table : TableName) (htable : table ≠ .schemaMigrations) :
    upgrade n rows' table = upgrade n rows table := by
  by_cases hruntime : table = .taskRuntime
  · subst hruntime
    have hconnected : connected rows' = connected rows := by
      funext row
      rw [connected, connected, h .taskConnections (by decide)]
    unfold upgrade
    split
    · rw [Function.update_self, Function.update_self, h .tasks (by decide)]
    · rw [Function.update_self, Function.update_self, h .taskRuntime (by decide), hconnected]
    · exact h _ (by decide)
  · rw [upgrade_apply hruntime, upgrade_apply hruntime, h table htable]

theorem WellFormed.nextVersion (h : WellFormed version s) (hobjects : s.objects = objectsAt version)
    (hversion : version < 8) (nowMs : Int) :
    WellFormed (version + 1) (nextVersion version nowMs s) :=
  (h.run_migration hobjects hversion nowMs).2

/-- One version more. -/
theorem Migrated.next {version' : Nat} (h : Migrated version version' s s')
    (hobjects : s'.objects = objectsAt version') (hversion : version' < 8) (nowMs : Int) :
    Migrated version (version' + 1) s (Storage.nextVersion version' nowMs s') := by
  refine ⟨h.before, h.after.nextVersion hobjects hversion nowMs, Nat.le_succ_of_le h.le,
    fun table htable => ?_, h.versions.trans ?_⟩
  · have hlength : version' + 1 - version = version' - version + 1 := Nat.succ_sub h.le
    have hlast : version + 1 + 1 * (version' - version) = version' + 1 := by
      have := h.le
      omega
    rw [nextVersion_apply htable, upgraded, hlength, List.range'_concat, List.foldl_append, hlast]
    exact upgrade_congr h.rows (version' + 1) table htable
  · rw [nextVersion_versions]
    exact List.prefix_append _ _

/-- The first statement. -/
theorem WellFormed.createVersions (h : WellFormed version s) :
    createVersions s = .ok ((), { s with objects := objectsAt version }) ∧
      Migrated version version s { s with objects := objectsAt version } := by
  rcases h.objects with hobjects | ⟨hnone, rfl⟩
  · rw [← hobjects]
    refine ⟨?_, .refl h⟩
    have htable : .table .schemaMigrations ∈ s.objects := by
      rw [hobjects]
      exact List.mem_cons_self
    rw [Storage.createVersions, if_pos htable]
  · have hfile : WellFormed 0 { s with objects := objectsAt 0 } := by
      refine ⟨h.known, .inl rfl, h.versions, h.rows.create ?_ fun hmem => ?_⟩
      · rw [hnone]
        exact List.nil_subset _
      · exact absurd hmem (by decide : Object.table .taskRuntime ∉ objectsAt 0)
    refine ⟨?_, h, hfile, le_refl _, fun table _ => rfl, List.prefix_refl _⟩
    have hblank := h.rows.blank (.table .schemaMigrations) (by rw [hnone]; exact List.not_mem_nil)
    rw [Storage.createVersions, if_neg (by rw [hnone]; exact List.not_mem_nil),
      MigrationStatement.write, hnone, MigrationStatement.change, Object.fill_of_blank hblank]
    rfl

theorem schemaVersion_eq (h : WellFormed version s) (hobjects : s.objects = objectsAt version) :
    schemaVersion s = .ok ((version : Int), s) := by
  have htable : .table .schemaMigrations ∈ s.objects := by
    rw [hobjects]
    exact List.mem_cons_self
  have hread : ∀ v ≤ 8, (BitVec.ofInt 32 (((List.range' 1 v).map Int.ofNat).max?.getD 0)).toInt =
      (v : Int) := by decide
  rw [schemaVersion, if_neg (not_not.mpr htable), h.versions]
  exact congrArg (fun n => Except.ok (n, s)) (hread version h.known)

section Starts

variable {fault : Nat → Option Error} {nowMs : Nat → Int} {version' : Nat}

theorem atomic_migrate (n : Nat) :
    Atomic fault (migrate fault nowMs n) (runMigration n (nowMs n)) :=
  ((Implements.forM (fun m => implements_statement (MigrationStatement.write m)) (migration n)).bind
    fun _ => implements_statement (recordVersion n (nowMs n))).atomic

/-- A statement that cannot fail by itself. -/
theorem wp_statement_ok {α : Type} {f : Stored → Except Error (α × Stored)} {a : α}
    {c : Connection Stored} (hidle : c.Idle) (hf : f c.db = .ok (a, s'))
    {Q : α → Connection Stored → Prop} {E : Error → Connection Stored → Prop}
    (hok : ∀ c', c'.Idle → c'.db = s' → Q a c')
    (herror : ∀ e c', c'.Idle → c'.db = c.db → (∃ i, fault i = some e) → E e c') :
    Wp (statement fault f) Q E c := by
  refine wp_mono (atomic_statement f c hidle) (fun b c' h => ?_) fun e c' h => ?_
  · rw [hf] at h
    cases h.1
    exact hok c' h.2 rfl
  · refine herror e c' h.2.1 h.1 (h.2.2.resolve_right fun hthrows => ?_)
    rw [hf] at hthrows
    cases hthrows

/-- How far a start has come when it has looked at the first `n` versions. -/
structure Reached (version n : Nat) (s : Stored) (c : Connection Stored) : Prop where
  idle : c.Idle
  migrated : ∃ version', Migrated version version' s c.db ∧ n ≤ version' ∧
    c.db.objects = objectsAt version'

/-- A start that throws: the storage has failed, in a transaction that left nothing behind. -/
def Failed (fault : Nat → Option Error) (version : Nat) (s : Stored) (e : Error)
    (c : Connection Stored) : Prop :=
  c.Idle ∧ (∃ version', Migrated version version' s c.db) ∧ ∃ i, fault i = some e

theorem Reached.failed {n : Nat} {c c' : Connection Stored} {e : Error}
    (h : Reached version n s c) (hidle : c'.Idle) (hdb : c'.db = c.db)
    (hfault : ∃ i, fault i = some e) : Failed fault version s e c' := by
  obtain ⟨version', hmigrated, -, -⟩ := h.migrated
  exact ⟨hidle, ⟨version', hdb ▸ hmigrated⟩, hfault⟩

/-- One version. -/
theorem wp_version {n : Nat} {c : Connection Stored} (hn : n < 8) (h : Reached version n s c) :
    Wp (do
      let current ← statement fault schemaVersion
      when (current < (n + 1 : Nat)) (migrate fault nowMs (n + 1)))
      (fun _ => Reached version (n + 1) s) (Failed fault version s) c := by
  obtain ⟨version', hmigrated, hle, hobjects⟩ := h.migrated
  have hread := schemaVersion_eq hmigrated.after hobjects
  rw [wp_bind]
  refine wp_statement_ok h.idle hread (fun c₁ hidle hdb => ?_) fun e c₁ hidle hdb hfault =>
    h.failed hidle hdb hfault
  refine wp_when (fun hlt => ?_) fun hge => ?_
  · obtain rfl : version' = n := by omega
    rw [← hdb] at hmigrated hobjects
    have hrun := (hmigrated.after.run_migration hobjects hn (nowMs (version' + 1))).1
    have hnext := hmigrated.next hobjects hn (nowMs (version' + 1))
    refine wp_mono (atomic_migrate (version' + 1) c₁ hidle) (fun _ c₂ hok => ?_)
      fun e c₂ herror => ?_
    · rw [hrun] at hok
      have hfile : Storage.nextVersion version' (nowMs (version' + 1)) c₁.db = c₂.db :=
        congrArg Prod.snd (Except.ok.inj hok.1)
      refine ⟨hok.2, version' + 1, ?_, le_refl _, ?_⟩
      · rw [← hfile]
        exact hnext
      · exact congrArg Stored.objects hfile.symm
    · rw [hrun] at herror
      refine h.failed herror.2.1 (herror.1.trans hdb) (herror.2.2.resolve_right fun hthrows => ?_)
      cases hthrows
  · exact ⟨hidle, version', hdb ▸ hmigrated, by omega, hdb ▸ hobjects⟩

/-- **A start**: it leaves a file of a version not before the one that it found, it throws only what
the storage throws, and when it returns the file has the last version. -/
theorem wp_applyMigrations (h : WellFormed version s) {c : Connection Stored} (hidle : c.Idle)
    (hdb : c.db = s) : Wp (applyMigrations fault nowMs)
      (fun _ c' => c'.Idle ∧ Migrated version 8 s c'.db) (Failed fault version s) c := by
  subst hdb
  obtain ⟨hcreate, hfile⟩ := h.createVersions
  rw [applyMigrations, wp_bind]
  refine wp_statement_ok hidle hcreate (fun c₁ hidle₁ hdb => ?_) fun e c₁ hidle₁ hdb hfault =>
    ⟨hidle₁, ⟨version, by rw [hdb]; exact .refl h⟩, hfault⟩
  have hreached : Reached version 0 c.db c₁ :=
    ⟨hidle₁, version, hdb ▸ hfile, Nat.zero_le _, congrArg Stored.objects hdb⟩
  have hloop := wp_forM_prefix (I := fun done => Reached version done.length c.db)
    (l := List.range' 1 8) (E := Failed fault version c.db)
    (f := fun n => do
      let current ← statement fault schemaVersion
      when (current < (n : Nat)) (migrate fault nowMs n)) (fun done n rest hl c₂ hc₂ => ?_) hreached
  · refine wp_mono hloop (fun _ c₂ hc₂ => ?_) fun _ _ hfailed => hfailed
    obtain ⟨version', hmigrated, hle, -⟩ := hc₂.migrated
    obtain rfl : version' = 8 := le_antisymm hmigrated.after.known hle
    exact ⟨hc₂.idle, hmigrated⟩
  · have hlength : done.length < 8 := by
      have := congrArg List.length hl
      rw [List.length_append, List.length_range', List.length_cons] at this
      omega
    have hn : n = done.length + 1 := by
      have hget := congrArg (fun l => l[done.length]?) hl
      simp only [List.getElem?_append_right (le_refl _), Nat.sub_self, List.getElem?_cons_zero,
        List.getElem?_range' hlength] at hget
      have := Option.some.inj hget
      omega
    subst hn
    rw [List.length_append]
    exact wp_version hlength hc₂

end Starts

end Storage

end VeritasSync
