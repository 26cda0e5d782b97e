import VeritasSync.Security.Invitation
import VeritasSync.Storage.TaskDeletion
import VeritasSync.Tracker.Client

/-!
# Joining with an invitation

`JoinInvitation` makes the task of the invitation, redeems the code at the tracker, and stores the
connection and the members in a transaction.  The task is inserted before the request, because the
lock on the database is not held during it; if anything fails from there on, the task is deleted
again.

What the file system says about the root, what the tracker answers and what the clock shows are
arguments; so are the faults of the storage.

Undoing the insertion is a deletion of the task with everything that refers to it, and it is not
obvious that this is the inverse.  Rows of other tasks must survive it, and the rows that the
triggers have inserted must go.  That it leaves no trace follows from the foreign keys: before the
insertion nothing can have referred to a task that was not there.  `VeritasSync.Storage.Schema` has
the tables and their triggers.

## What is here

* `createTask`, `persistEnrollment`, `enroll`, `joinInvitation` — the source.
* `withoutTask_insertTask` — a task that has just been inserted is deleted without a trace.
* `Enrolled` — what the tables hold after an enrollment.
* `join_invitation` — **all or nothing**.
* `join_invitation_two_rows` — a tracker that names a device twice: the row that counts is the last.
-/

set_option autoImplicit false

namespace VeritasSync

open Exec Relational Transaction Tracker

/-! ## The source

The statements are written with their constraints, and the functions of `Database` and
`PairingService` are built from them in the order of the source.  Texts that are bound as C strings
end at their first zero byte; `boundText` is that. -/

/-- `TaskConnection`: how a task reaches its tracker. -/
structure TaskConnection where
  taskId : Bytes
  trackerUrl : Bytes
  roomId : Bytes
  authorizationDigest : Bytes
  joinedAtMs : Int
  deriving DecidableEq

/-- `TaskMember`: a device that takes part in a task. -/
structure TaskMember where
  taskId : Bytes
  deviceId : Bytes
  fingerprint : Bytes
  role : Bytes
  authorizedAtMs : Int
  revoked : Bool
  deriving DecidableEq

/-- `TrackerHttpResponse`: the status and the body. -/
structure TrackerHttpResponse where
  status : UInt16
  body : Bytes

/-- What is around the service.  Paths are read from texts, which can fail. -/
structure JoinEnvironment where
  isDirectory : Bytes → Except Error Bool
  weaklyCanonical : Bytes → Except Error Bytes
  /-- The look for the database under a root. -/
  requireDatabaseOutside : Bytes → Except Error Unit
  /-- `unixepoch() * 1000`. -/
  createdAtMs : Int
  httpFactory : Except Error Unit
  /-- A signed request: the address, the path and the body. -/
  post : Bytes → Bytes → Bytes → Except Error TrackerHttpResponse
  /-- `NowMilliseconds`. -/
  now : Int

section Statements

variable (fault : Nat → Option Error)

/-- A statement that only reads. -/
def select {α : Type} (f : Tables → Except Error α) : Exec (Connection Tables) Error α :=
  statement fault fun db => (f db).map fun a => (a, db)

/-- The row of a new task. -/
def TaskDefinition.row (createdAtMs : Int) (task : TaskDefinition) : TaskRow :=
  ⟨some (boundText task.taskId), boundText task.mode, boundText task.role,
    boundText task.rootPath, createdAtMs⟩

/-- The row that the trigger inserts, with the defaults of the table. -/
def TaskDefinition.runtimeRow (task : TaskDefinition) : TaskRuntimeRow :=
  ⟨some (boundText task.taskId), true, ascii "idle", true, none, none, ascii "unpaired", none⟩

/-- What the trigger and the statement insert. -/
def insertTaskRows (createdAtMs : Int) (task : TaskDefinition) (db : Tables) : Tables :=
  insertRow .taskRuntime task.runtimeRow (insertRow .tasks (task.row createdAtMs) db)

/-- `INSERT INTO tasks …`, with its constraints. -/
def insertTask (createdAtMs : Int) (task : TaskDefinition) (db : Tables) :
    Except Error (Unit × Tables) :=
  if boundText task.mode ∉ [ascii "one_way", ascii "bidirectional"] ∨
      boundText task.role ∉ [ascii "source", ascii "target", ascii "peer"] then
    .error (.runtimeError "insert task: CHECK constraint failed")
  else if (db .tasks).any (sameKey .tasks (task.row createdAtMs)) ∨
      (db .taskRuntime).any (sameKey .taskRuntime task.runtimeRow) then
    .error (.runtimeError "insert task: UNIQUE constraint failed")
  else (Relational.execute schema (.runtimeError "insert task: FOREIGN KEY constraint failed")
    (insertTaskRows createdAtMs task) db).map fun db' => ((), db')

/-- `Database::CreateTask`: the row of the task, and by a trigger that of its runtime. -/
def createTask (environment : JoinEnvironment) (task : TaskDefinition) :
    Exec (Connection Tables) Error Unit :=
  if task.taskId = [] ∨ task.rootPath = [] then
    raise (.invalidArgument "task id and root path are required")
  else do
    check fun _ => environment.requireDatabaseOutside task.rootPath
    if task.mode = ascii "one_way" ∧ task.role ≠ ascii "source" ∧ task.role ≠ ascii "target" ∨
        task.mode = ascii "bidirectional" ∧ task.role ≠ ascii "peer" then
      raise (.invalidArgument "task mode and role are incompatible")
    else statement fault (insertTask environment.createdAtMs task)

/-- `Database::FindTaskConnection`: the connection of a task, if it has been stored. -/
def Tables.findTaskConnection (db : Tables) (taskId : Bytes) :
    Except Error (Option TaskConnection) :=
  if taskId = [] then .error (.invalidArgument "task id is required")
  else
    .ok (((db .taskConnections).find? fun row => row.taskId = some (boundText taskId)).map
      fun row => ⟨taskId, row.trackerUrl, row.roomId, row.authorizationDigest, row.joinedAtMs⟩)

/-- The row of a connection. -/
def TaskConnection.row (connection : TaskConnection) : TaskConnectionRow :=
  ⟨some (boundText connection.taskId), boundText connection.trackerUrl,
    boundText connection.roomId, boundText connection.authorizationDigest, connection.joinedAtMs⟩

/-- `INSERT INTO task_connections …`. -/
def TaskConnection.write (connection : TaskConnection) (db : Tables) :
    Except Error (Unit × Tables) :=
  (Relational.execute schema (.runtimeError "upsert task connection: FOREIGN KEY constraint failed")
    (upsertRow schema .taskConnections connection.row fun old => { old with
      trackerUrl := connection.row.trackerUrl
      roomId := connection.row.roomId
      authorizationDigest := connection.row.authorizationDigest
      joinedAtMs := connection.row.joinedAtMs }) db).map fun db' => ((), db')

/-- The check of `ConfigureTaskConnection`. -/
def TaskConnection.Invalid (connection : TaskConnection) : Prop :=
  connection.taskId = [] ∨ connection.trackerUrl = [] ∨ connection.roomId = [] ∨
    connection.authorizationDigest.length ≠ 64 ∨ connection.joinedAtMs ≤ 0

instance (connection : TaskConnection) : Decidable connection.Invalid :=
  inferInstanceAs (Decidable (_ ∨ _))

/-- `Database::ConfigureTaskConnection`: the connection replaces the one before. -/
def configureTaskConnection (connection : TaskConnection) : Exec (Connection Tables) Error Unit :=
  if connection.Invalid then raise (.invalidArgument "task connection is invalid")
  else statement fault connection.write

/-- The row of a member. -/
def TaskMember.row (member : TaskMember) : TaskMemberRow :=
  ⟨boundText member.taskId, boundText member.deviceId, boundText member.fingerprint,
    boundText member.role, member.authorizedAtMs, member.revoked⟩

/-- `INSERT INTO task_members …`. -/
def TaskMember.write (member : TaskMember) (db : Tables) : Except Error (Unit × Tables) :=
  (Relational.execute schema (.runtimeError "upsert task member: FOREIGN KEY constraint failed")
    (upsertRow schema .taskMembers member.row fun old => { old with
      fingerprint := member.row.fingerprint
      role := member.row.role
      authorizedAtMs := member.row.authorizedAtMs
      revoked := member.row.revoked }) db).map fun db' => ((), db')

/-- The check of `UpsertTaskMember`. -/
def TaskMember.Invalid (member : TaskMember) : Prop :=
  member.taskId = [] ∨ member.deviceId = [] ∨ member.fingerprint.length ≠ 64 ∨
    member.role ∉ [ascii "source", ascii "target", ascii "peer"] ∨ member.authorizedAtMs ≤ 0

instance (member : TaskMember) : Decidable member.Invalid :=
  inferInstanceAs (Decidable (_ ∨ _))

/-- `Database::UpsertTaskMember`: the row of the device is replaced. -/
def upsertTaskMember (member : TaskMember) : Exec (Connection Tables) Error Unit :=
  if member.Invalid then raise (.invalidArgument "task member is invalid")
  else statement fault member.write

/-- The connection that is stored for an enrollment. -/
def JoinEnvironment.connection (environment : JoinEnvironment) (taskId trackerUrl : Bytes)
    (enrollment : TrackerEnrollment) : TaskConnection :=
  ⟨taskId, trackerUrl, enrollment.roomId, enrollment.authorizationDigest, environment.now⟩

/-- What is stored for a member. -/
def JoinEnvironment.member (environment : JoinEnvironment) (taskId : Bytes)
    (member : TrackerMember) : TaskMember :=
  ⟨taskId, member.deviceId, member.fingerprint, roleName member.role, environment.now, false⟩

/-- `PairingService::PersistEnrollment`: the connection and the members, in one transaction. -/
def persistEnrollment (environment : JoinEnvironment) (task : TaskDefinition)
    (trackerUrl : Bytes) (enrollment : TrackerEnrollment) : Exec (Connection Tables) Error Unit :=
  inTransaction fault do
    configureTaskConnection fault (environment.connection task.taskId trackerUrl enrollment)
    enrollment.members.forM fun member =>
      upsertTaskMember fault (environment.member task.taskId member)

end Statements

/-- The tracker of an invitation: `TrackerClient` and `RedeemInvitation`.  The message of a refused
request ends with the text of the answer, which is left out. -/
def JoinEnvironment.redeemInvitation (environment : JoinEnvironment)
    (invitation : ParsedInvitation) (role : Role) : Except Error TrackerEnrollment := do
  environment.httpFactory
  let baseUrl := invitation.trackerUrl.rdropWhile (· = '/'.toUInt8)
  if baseUrl = [] then .error (.invalidArgument "Tracker client configuration is invalid")
  else do
    let body := TrackerClient.encodeField invitation.code ++ [tab] ++
      TrackerClient.encodeField invitation.taskId ++ [tab] ++ roleName role
    let response ← environment.post baseUrl (ascii "/v1/invitations/redeem") body
    if response.status < 200 ∨ 300 ≤ response.status then
      .error (.runtimeError ("Tracker rejected request: HTTP " ++ toString response.status))
    else do
      let enrollment ← (parseEnrollment response.body).mapError Error.runtimeError
      if enrollment.roomId = [] ∨ enrollment.sessionToken = [] then
        .error (.invalidArgument "Tracker enrollment is invalid")
      else .ok enrollment

/-- `ParseRole` of the service. -/
def invitedRole (text : Bytes) : Except Error Role :=
  match parseRole text with
  | some role => .ok role
  | none => .error (.invalidArgument "invitation contains an invalid role")

/-- `operator*`, which there is no value for where the optional has none. -/
def value {α : Type} (a : Option α) : Exec (Connection Tables) Error α :=
  match a with
  | some a => pure a
  | none => raise (.logicError "optional without a value")

/-- The creator of an invitation is among the members. -/
def ParsedInvitation.CreatorIn (invitation : ParsedInvitation) (members : List TrackerMember) :
    Prop :=
  ∃ member ∈ members, member.deviceId = invitation.creatorDeviceId ∧
    member.fingerprint = invitation.creatorFingerprint

instance (invitation : ParsedInvitation) (members : List TrackerMember) :
    Decidable (invitation.CreatorIn members) :=
  inferInstanceAs (Decidable (∃ member ∈ members, _))

/-- The part of `JoinInvitation` whose exceptions undo the insertion of the task. -/
def enroll (fault : Nat → Option Error) (environment : JoinEnvironment)
    (invitation : ParsedInvitation) (role : Role) (task : Option TaskDefinition) :
    Exec (Connection Tables) Error TaskConnection := do
  let enrollment ← check fun _ => environment.redeemInvitation invitation role
  if ¬ invitation.CreatorIn enrollment.members then
    raise (.runtimeError "Tracker membership does not match invitation creator")
  else do
    let task ← value task
    persistEnrollment fault environment task invitation.trackerUrl enrollment
    let connection ← select fault (·.findTaskConnection invitation.taskId)
    value connection

/-- Whether a task that is there is the one of the invitation. -/
def matchesInvitation (environment : JoinEnvironment) (invitation : ParsedInvitation)
    (localRoot : Bytes) (task : TaskDefinition) : Except Error Unit :=
  if task.mode ≠ invitation.topology ∨ task.role ≠ invitation.invitedRole then
    .error (.invalidArgument "existing task does not match invitation and local root")
  else do
    let a ← environment.weaklyCanonical task.rootPath
    let b ← environment.weaklyCanonical localRoot
    if a ≠ b then
      .error (.invalidArgument "existing task does not match invitation and local root")
    else .ok ()

/-- `PairingService::JoinInvitation`: from the token to the connection that has been stored. -/
def joinInvitation (fault : Nat → Option Error) (environment : JoinEnvironment)
    (token localRoot : Bytes) : Exec (Connection Tables) Error TaskConnection := do
  let invitation ← check fun _ => parseInvitation token
  let isDirectory ← check fun _ =>
    if localRoot = [] then .ok false else environment.isDirectory localRoot
  if isDirectory = false then
    raise (.invalidArgument "pairing root must be an existing directory")
  else do
    let role ← check fun _ => invitedRole invitation.invitedRole
    let found ← select fault (·.findTask invitation.taskId)
    match found with
    | none => do
      createTask fault environment
        ⟨invitation.taskId, invitation.topology, invitation.invitedRole, localRoot⟩
      let task ← select fault (·.findTask invitation.taskId)
      orElse (enroll fault environment invitation role task) fun e => do
        deleteTask fault invitation.taskId
        raise e
    | some task => do
      check fun _ => matchesInvitation environment invitation localRoot task
      enroll fault environment invitation role (some task)

/-! ## Statements that the storage does not fail

The theorem of this module assumes a storage that works, so a statement fails only by a
constraint. -/

section NoFault

variable {α : Type} {f : Tables → Except Error (α × Tables)} {c : Connection Tables}
  {Q : α → Connection Tables → Prop} {E : Error → Connection Tables → Prop}

theorem wp_statement (hok : ∀ a db n, f c.db = .ok (a, db) → Q a { c with db, executed := n })
    (herror : ∀ e n, f c.db = .error e → E e { c with executed := n }) :
    Wp (statement noFault f) Q E c := by
  rw [Wp, statement]
  cases hf : f c.db with
  | ok r => exact hok r.1 r.2 _ hf
  | error e => exact herror e _ hf

theorem wp_select {g : Tables → Except Error α}
    (hok : ∀ a n, g c.db = .ok a → Q a { c with executed := n })
    (herror : ∀ e n, g c.db = .error e → E e { c with executed := n }) :
    Wp (select noFault g) Q E c := by
  refine wp_statement (fun a db n h => ?_) fun e n h => herror e n ?_
  · cases hg : g c.db with
    | ok b =>
      rw [hg] at h
      cases h
      exact hok a n hg
    | error e =>
      rw [hg] at h
      cases h
  · cases hg : g c.db with
    | ok b =>
      rw [hg] at h
      cases h
    | error e' =>
      rw [hg] at h
      cases h
      rfl

end NoFault

/-! ## The task -/

section Task

variable {db : Tables} {task : Bytes}

/-- What is left of a row that refers to the task is the reference. -/
theorem task_of_belongs (h : ForeignKeys schema db) {table : TableName} {row : Row table}
    (hrow : row ∈ db table) (hbelongs : Belongs db task table row = true) :
    ∃ p ∈ db .tasks, p.taskId = some task := by
  have hreference : ∀ table' (action : Relational.Action (Row table')),
      toTasks table' action ∈ schema.references table' → ∀ row' ∈ db table',
        taskColumn table' row' = some task → ∃ p ∈ db .tasks, p.taskId = some task := by
    intro table' action href row' hrow' htask
    obtain ⟨p, hp, hrefers⟩ := h table' _ href row' hrow' (by
      show (taskColumn table' row').isSome = true
      rw [htask]
      rfl)
    obtain ⟨value, hvalue, hpvalue⟩ := sameValue_iff.mp hrefers
    exact ⟨p, hp, hpvalue.trans (hvalue.symm.trans htask)⟩
  cases table
  case schemaMigrations => cases (belongs_iff (by decide)).mp hbelongs
  case tasks => exact ⟨row, hrow, (belongs_iff (by decide)).mp hbelongs⟩
  case transferChunks =>
    obtain ⟨transfer, htransfer, -, htask⟩ := belongs_chunk_iff.mp hbelongs
    exact hreference .transfers _ (List.mem_cons_self ..) transfer htransfer
      (congrArg some htask)
  all_goals
    exact hreference _ _ (List.mem_cons_self ..) row hrow ((belongs_iff (by decide)).mp hbelongs)

/-- **A task that has just been inserted** is deleted without a trace.  The foreign keys are what is
needed: no other row can have referred to it. -/
theorem withoutTask_insertTaskRows (h : ForeignKeys schema db) (createdAtMs : Int)
    (definition : TaskDefinition)
    (hnone : ∀ p ∈ db .tasks, p.taskId ≠ some (boundText definition.taskId)) :
    withoutTask (boundText definition.taskId) (insertTaskRows createdAtMs definition db) = db := by
  set after := insertTaskRows createdAtMs definition db with hafter
  have hother : ∀ table, table ≠ .tasks → table ≠ .taskRuntime → after table = db table :=
    fun table htasks hruntime => (insertRow_of_ne hruntime).trans (insertRow_of_ne htasks)
  -- the rows that were there belong to other tasks, as this task was not
  have hnew : ∀ table, ∀ row ∈ db table,
      Belongs after (boundText definition.taskId) table row = false := by
    intro table row hrow
    refine Bool.eq_false_iff.mpr fun hbelongs => ?_
    have hbefore : Belongs db (boundText definition.taskId) table row = true := by
      by_cases hchunks : table = .transferChunks
      · subst hchunks
        rw [belongs_chunk_iff, hother .transfers (by decide) (by decide)] at hbelongs
        exact belongs_chunk_iff.mpr hbelongs
      · exact (belongs_iff hchunks).mpr ((belongs_iff hchunks).mp hbelongs)
    obtain ⟨p, hp, htask⟩ := task_of_belongs h hrow hbefore
    exact hnone p hp htask
  have hkept : ∀ table, (db table).filter
      (fun row => !Belongs after (boundText definition.taskId) table row) = db table :=
    fun table => List.filter_eq_self.mpr fun row hrow => by rw [hnew table row hrow]; rfl
  funext table
  cases table
  case engineEvents =>
    rw [withoutTask, hother .engineEvents (by decide) (by decide)]
    refine (List.map_congr_left fun event hevent => if_neg fun htask => ?_).trans (List.map_id _)
    have hbelongs : Belongs after (boundText definition.taskId) .engineEvents event = true :=
      (belongs_iff (by decide)).mpr htask
    rw [hnew .engineEvents event hevent] at hbelongs
    cases hbelongs
  case tasks =>
    show (after .tasks).filter _ = _
    rw [hafter, insertTaskRows, insertRow_of_ne (by decide), insertRow_self, List.filter_append,
      ← insertTaskRows, ← hafter, hkept]
    have hbelongs : Belongs after (boundText definition.taskId) .tasks
        (definition.row createdAtMs) = true := (belongs_iff (by decide)).mpr rfl
    rw [List.filter_cons_of_neg (by rw [hbelongs]; exact Bool.false_ne_true), List.filter_nil,
      List.append_nil]
  case taskRuntime =>
    show (after .taskRuntime).filter _ = _
    rw [hafter, insertTaskRows, insertRow_self, insertRow_of_ne (by decide), List.filter_append,
      ← insertTaskRows, ← hafter, hkept]
    have hbelongs : Belongs after (boundText definition.taskId) .taskRuntime
        definition.runtimeRow = true := (belongs_iff (by decide)).mpr rfl
    rw [List.filter_cons_of_neg (by rw [hbelongs]; exact Bool.false_ne_true), List.filter_nil,
      List.append_nil]
  all_goals
    show (after _).filter _ = _
    rw [hother _ (by decide) (by decide)]
    exact hkept _

/-- A task that is not found has no row. -/
theorem findTask_eq_none {taskId : Bytes} (h : db.findTask taskId = .ok none) :
    taskId ≠ [] ∧ ∀ p ∈ db .tasks, p.taskId ≠ some (boundText taskId) := by
  rw [Tables.findTask] at h
  split at h
  · cases h
  · rename_i hne
    refine ⟨hne, fun p hp htask => ?_⟩
    have hnone := Option.map_eq_none_iff.mp (Except.ok.inj h)
    exact List.find?_eq_none.mp hnone p hp (decide_eq_true htask)

theorem findTask_eq_some {taskId : Bytes} {definition : TaskDefinition}
    (h : db.findTask taskId = .ok (some definition)) :
    taskId ≠ [] ∧ definition.taskId = taskId ∧ ∃ p ∈ db .tasks,
      p.taskId = some (boundText taskId) ∧ p.mode = definition.mode ∧ p.role = definition.role := by
  rw [Tables.findTask] at h
  split at h
  · cases h
  · rename_i hne
    obtain ⟨p, hfind, rfl⟩ := Option.map_eq_some_iff.mp (Except.ok.inj h)
    exact ⟨hne, rfl, p, List.mem_of_find?_eq_some hfind,
      of_decide_eq_true (List.find?_eq_some_iff_append.mp hfind).1, rfl, rfl⟩

end Task

/-! ## The enrollment

Members are stored one after the other, and a device that the tracker names twice is stored twice,
in the same row.  What counts is therefore the last row of each device, and the loop has to be
followed from its end. -/

section Enrollment

variable {environment : JoinEnvironment} {db db' : Tables}

/-- One round of the loop over the members. -/
def memberRows (environment : JoinEnvironment) (taskId : Bytes) (member : TrackerMember)
    (db : Tables) : Except Error (Unit × Tables) :=
  if (environment.member taskId member).Invalid then
    .error (.invalidArgument "task member is invalid")
  else (environment.member taskId member).write db

/-- The effect of `PersistEnrollment` when the storage does not fail. -/
def enrollmentRows (environment : JoinEnvironment) (taskId trackerUrl : Bytes)
    (enrollment : TrackerEnrollment) (db : Tables) : Except Error (Unit × Tables) :=
  (if (environment.connection taskId trackerUrl enrollment).Invalid then
      .error (.invalidArgument "task connection is invalid")
    else (environment.connection taskId trackerUrl enrollment).write db) >>= fun r =>
      each (memberRows environment taskId) enrollment.members r.2

theorem implements_enrollmentRows (taskId trackerUrl : Bytes) (enrollment : TrackerEnrollment) :
    Implements noFault (do
      configureTaskConnection noFault (environment.connection taskId trackerUrl enrollment)
      enrollment.members.forM fun member =>
        upsertTaskMember noFault (environment.member taskId member))
      (enrollmentRows environment taskId trackerUrl enrollment) :=
  ((implements_raise _).ite (implements_statement _)).bind fun _ =>
    Implements.forM (fun _ => (implements_raise _).ite (implements_statement _)) _

theorem write_connection {connection : TaskConnection} {u : Unit}
    (h : connection.write db = .ok (u, db')) :
    connection.row ∈ db' .taskConnections ∧
      ∀ table, table ≠ .taskConnections → db' table = db table := by
  obtain ⟨db'', hexecute, heq⟩ := ok_of_map h
  cases heq
  obtain ⟨-, rfl⟩ := execute_eq_ok_iff.mp hexecute
  refine ⟨mem_upsertRow fun old hkey => ?_, fun table hne => upsertRow_of_ne hne⟩
  have hsame : sameValue connection.row.taskId old.taskId = true := hkey
  obtain ⟨value, hvalue, hold⟩ := sameValue_iff.mp hsame
  have hid : old.taskId = connection.row.taskId := hold.trans hvalue.symm
  rw [hid]

theorem write_member {member : TaskMember} {u : Unit} (h : member.write db = .ok (u, db')) :
    member.row ∈ db' .taskMembers ∧
      (∀ other ∈ db .taskMembers, sameKey .taskMembers member.row other = false →
        other ∈ db' .taskMembers) ∧
      ∀ table, table ≠ .taskMembers → db' table = db table := by
  obtain ⟨db'', hexecute, heq⟩ := ok_of_map h
  cases heq
  obtain ⟨-, rfl⟩ := execute_eq_ok_iff.mp hexecute
  refine ⟨mem_upsertRow fun old hkey => ?_, fun other hmem hkey => mem_upsertRow_of_mem hmem hkey,
    fun table hne => upsertRow_of_ne hne⟩
  obtain ⟨htask, hdevice⟩ := of_decide_eq_true hkey
  rw [← htask, ← hdevice]

/-- What the tables hold after an enrollment.  The last row of a device counts. -/
structure Enrolled (environment : JoinEnvironment) (taskId trackerUrl : Bytes)
    (enrollment : TrackerEnrollment) (db : Tables) : Prop where
  connection : (environment.connection taskId trackerUrl enrollment).row ∈ db .taskConnections
  members : ∀ before member after, enrollment.members = before ++ member :: after →
    (∀ other ∈ after, boundText other.deviceId ≠ boundText member.deviceId) →
      (environment.member taskId member).row ∈ db .taskMembers

theorem memberRows_ok {taskId : Bytes} {member : TrackerMember} {u : Unit}
    (h : memberRows environment taskId member db = .ok (u, db')) :
    (environment.member taskId member).write db = .ok (u, db') := by
  rw [memberRows] at h
  split at h
  · cases h
  · exact h

/-- The row of a member stays while other devices are written. -/
theorem each_memberRows_keep {taskId : Bytes} {row : TaskMemberRow} {members : List TrackerMember}
    {u : Unit} (h : each (memberRows environment taskId) members db = .ok (u, db'))
    (hmembers : ∀ other ∈ members, boundText other.deviceId ≠ row.deviceId)
    (hrow : row ∈ db .taskMembers) : row ∈ db' .taskMembers := by
  refine each_invariant (I := fun db => row ∈ db .taskMembers)
    (fun member hmember db₁ db₂ h₁ hrow₁ => ?_) h hrow
  refine (write_member (memberRows_ok h₁)).2.1 row hrow₁ (decide_eq_false fun hkey => ?_)
  exact hmembers member hmember hkey.2

theorem each_memberRows_mem {taskId : Bytes} {members : List TrackerMember} {u : Unit}
    (h : each (memberRows environment taskId) members db = .ok (u, db')) :
    ∀ before member after, members = before ++ member :: after →
      (∀ other ∈ after, boundText other.deviceId ≠ boundText member.deviceId) →
        (environment.member taskId member).row ∈ db' .taskMembers := by
  induction members generalizing db with
  | nil =>
    intro before member after heq
    cases before <;> cases heq
  | cons first rest ih =>
    obtain ⟨db₁, hfirst, hrest⟩ := each_cons_ok h
    intro before member after heq hafter
    cases before with
    | nil =>
      cases heq
      exact each_memberRows_keep hrest hafter (write_member (memberRows_ok hfirst)).1
    | cons _ before =>
      cases heq
      exact ih hrest before member after rfl hafter

theorem each_memberRows_other {taskId : Bytes} {members : List TrackerMember} {u : Unit}
    (h : each (memberRows environment taskId) members db = .ok (u, db')) {table : TableName}
    (hne : table ≠ .taskMembers) : db' table = db table :=
  each_invariant (I := fun db₁ => db₁ table = db table)
    (fun _ _ _ _ h₁ hdb => ((write_member (memberRows_ok h₁)).2.2 table hne).trans hdb) h rfl

theorem enrolled_of_enrollmentRows {taskId trackerUrl : Bytes} {enrollment : TrackerEnrollment}
    {u : Unit} (h : enrollmentRows environment taskId trackerUrl enrollment db = .ok (u, db')) :
    Enrolled environment taskId trackerUrl enrollment db' ∧ db' .tasks = db .tasks := by
  obtain ⟨⟨u₁, db₁⟩, hconnection, hmembers⟩ := ok_of_bind h
  split at hconnection
  · cases hconnection
  obtain ⟨hrow, hother⟩ := write_connection hconnection
  refine ⟨⟨?_, each_memberRows_mem hmembers⟩, ?_⟩
  · rw [each_memberRows_other hmembers (by decide)]
    exact hrow
  · rw [each_memberRows_other hmembers (by decide)]
    exact hother .tasks (by decide)

/-- The connection that has been stored is found. -/
theorem findTaskConnection_of_enrolled {taskId trackerUrl : Bytes} {enrollment : TrackerEnrollment}
    (hne : taskId ≠ []) (h : Enrolled environment taskId trackerUrl enrollment db) :
    ∃ connection, db.findTaskConnection taskId = .ok (some connection) := by
  rw [Tables.findTaskConnection, if_neg hne]
  cases hfind : (db .taskConnections).find? fun row => row.taskId = some (boundText taskId) with
  | none => exact absurd (decide_eq_true rfl) (List.find?_eq_none.mp hfind _ h.connection)
  | some row => exact ⟨_, rfl⟩

variable {c : Connection Tables} {invitation : ParsedInvitation} {role : Role}

/-- `PersistEnrollment` stores the enrollment, or raises and changes nothing. -/
theorem wp_persistEnrollment (hidle : c.Idle) (task : TaskDefinition) (trackerUrl : Bytes)
    (enrollment : TrackerEnrollment) :
    Wp (persistEnrollment noFault environment task trackerUrl enrollment)
      (fun _ c' => c'.Idle ∧ Enrolled environment task.taskId trackerUrl enrollment c'.db ∧
        c'.db .tasks = c.db .tasks)
      (fun _ c' => c'.Idle ∧ c'.db = c.db) c := by
  refine (implements_enrollmentRows task.taskId trackerUrl enrollment).wp_inTransaction hidle
    (fun u c' hok hidle' => ?_) fun _ _ hdb hidle' => ⟨hidle', hdb⟩
  exact ⟨hidle', enrolled_of_enrollmentRows hok⟩

/-- **What `enroll` leaves**: the enrollment, or everything as it was.  The request to the tracker
is in between, and whatever it answers is covered. -/
theorem wp_enroll (hidle : c.Idle) {task : TaskDefinition} (htask : task.taskId = invitation.taskId)
    (hne : invitation.taskId ≠ []) :
    Wp (enroll noFault environment invitation role (some task))
      (fun _ c' => ∃ enrollment,
        environment.redeemInvitation invitation role = .ok enrollment ∧
        Enrolled environment invitation.taskId invitation.trackerUrl enrollment c'.db ∧
        c'.db .tasks = c.db .tasks)
      (fun _ c' => c'.Idle ∧ c'.db = c.db) c := by
  rw [enroll, wp_bind]
  refine wp_check (fun _ _ => ⟨hidle, rfl⟩) fun enrollment hredeem => ?_
  refine wp_ite (fun _ => ⟨hidle, rfl⟩) fun _ => ?_
  rw [value, wp_bind, wp_pure, wp_bind, ← htask]
  refine wp_mono (wp_persistEnrollment hidle task _ enrollment) (fun _ c' h => ?_) fun _ _ h => h
  obtain ⟨hidle', henrolled, htasks⟩ := h
  obtain ⟨connection, hfind⟩ := findTaskConnection_of_enrolled (htask ▸ hne) henrolled
  rw [wp_bind]
  refine wp_select (fun found n hfound => ?_) fun e n herror => ?_
  · rw [hfind] at hfound
    cases hfound
    exact ⟨enrollment, hredeem, henrolled, htasks⟩
  · rw [hfind] at herror
    cases herror

end Enrollment

/-! ## The whole -/

section Join

variable {environment : JoinEnvironment} {c : Connection Tables} {definition : TaskDefinition}

/-- `CreateTask` inserts the task, or raises and changes nothing. -/
theorem wp_createTask (hidle : c.Idle) :
    Wp (createTask noFault environment definition)
      (fun _ c' => c'.Idle ∧ c'.db = insertTaskRows environment.createdAtMs definition c.db ∧
        ForeignKeys schema c'.db)
      (fun _ c' => c'.db = c.db) c := by
  rw [createTask]
  refine wp_ite (fun _ => rfl) fun _ => ?_
  rw [wp_bind]
  refine wp_check (fun _ _ => rfl) fun _ _ => wp_ite (fun _ => rfl) fun _ => ?_
  refine wp_statement (fun u db n hok => ?_) fun _ _ _ => rfl
  rw [insertTask] at hok
  split at hok
  · cases hok
  split at hok
  · cases hok
  obtain ⟨db', hexecute, heq⟩ := ok_of_map hok
  cases heq
  obtain ⟨hkeys, rfl⟩ := execute_eq_ok_iff.mp hexecute
  exact ⟨hidle, rfl, hkeys⟩

/-- The task that has been inserted has one row. -/
theorem taskCount_insertTaskRows {db : Tables} (createdAtMs : Int) (definition : TaskDefinition)
    (hnone : ∀ p ∈ db .tasks, p.taskId ≠ some (boundText definition.taskId)) :
    taskCount (boundText definition.taskId) (insertTaskRows createdAtMs definition db) = 1 := by
  have hold : (db .tasks).filter
      (fun row => row.taskId = some (boundText definition.taskId)) = [] :=
    List.filter_eq_nil_iff.mpr fun p hp htask => hnone p hp (of_decide_eq_true htask)
  rw [taskCount, insertTaskRows, insertRow_of_ne (by decide), insertRow_self, List.filter_append,
    hold, List.nil_append]
  simp [TaskDefinition.row]

/-- The task is deleted again. -/
theorem wp_undo {db : Tables} {e : Error} {Q : TaskConnection → Connection Tables → Prop}
    (h : ForeignKeys schema db) (hne : definition.taskId ≠ [])
    (hnone : ∀ p ∈ db .tasks, p.taskId ≠ some (boundText definition.taskId))
    (createdAtMs : Int) (hidle : c.Idle) (hdb : c.db = insertTaskRows createdAtMs definition db)
    (hkeys : ForeignKeys schema c.db) :
    Wp (do deleteTask noFault definition.taskId; raise e) Q (fun _ c' => c'.db = db) c := by
  rw [wp_bind, deleteTask, if_neg hne]
  have hrows := deleteRows_eq (boundText definition.taskId) hkeys
  rw [hdb, taskCount_insertTaskRows createdAtMs definition hnone, if_neg (not_not.mpr rfl),
    withoutTask_insertTaskRows h createdAtMs definition hnone] at hrows
  rw [← hdb] at hrows
  have hdelete : Implements noFault _ _ := implements_deleteRows (boundText definition.taskId)
  obtain ⟨hreturn, hafter, -⟩ := (inTransaction_noFault hdelete hidle).1 () db hrows
  rw [Wp]
  rcases hrun : inTransaction noFault _ c with ⟨e' | u, c'⟩
  · rw [hrun] at hreturn
    cases hreturn
  · rw [hrun] at hafter
    exact hafter

/-- What `ParseInvitation` returns has passed its checks. -/
theorem not_malformed_of_parseInvitation {token : Bytes} {invitation : ParsedInvitation}
    (h : parseInvitation token = .ok invitation) : ¬ invitation.Malformed := by
  rw [parseInvitation] at h
  split at h
  · split at h
    · cases h
    obtain ⟨_, -, h⟩ := ok_of_bind h
    obtain ⟨_, -, h⟩ := ok_of_bind h
    obtain ⟨_, -, h⟩ := ok_of_bind h
    obtain ⟨_, -, h⟩ := ok_of_bind h
    obtain ⟨_, -, h⟩ := ok_of_bind h
    obtain ⟨_, -, h⟩ := ok_of_bind h
    obtain ⟨_, -, h⟩ := ok_of_bind h
    dsimp only at h
    split at h
    · cases h
    · rename_i hformed
      cases h
      exact hformed
  · cases h

/-- A topology and a role that pass the checks of a token are stored as they are. -/
theorem boundText_of_wellFormed {token : Bytes} {invitation : ParsedInvitation}
    (h : parseInvitation token = .ok invitation) :
    boundText invitation.topology = invitation.topology ∧
      boundText invitation.invitedRole = invitation.invitedRole := by
  have hformed := not_malformed_of_parseInvitation h
  simp only [ParsedInvitation.Malformed, not_or, not_and, not_not] at hformed
  obtain ⟨-, -, -, -, -, hone, hboth, hknown⟩ := hformed
  by_cases htopology : invitation.topology = ascii "one_way"
  · rw [hone htopology, htopology]
    decide
  · rw [hboth (hknown htopology), hknown htopology]
    decide

/-- **Joining is all or nothing**, for every database that its schema allows and whatever the
tracker answers.  An exception leaves all tables as they were.  Otherwise the task is there with the
topology and the role of the invitation, its connection is what the enrollment says, and each device
of the enrollment is stored, not revoked, with what its last row says. -/
theorem join_invitation (environment : JoinEnvironment) (db : Tables) (executed : Nat)
    (token localRoot : Bytes) (h : Valid schema db) :
    let run := joinInvitation noFault environment token localRoot ⟨db, none, executed⟩
    (∀ e, run.1 = .error e → run.2.db = db) ∧
    ∀ connection, run.1 = .ok connection → ∃ invitation role enrollment,
      parseInvitation token = .ok invitation ∧
      parseRole invitation.invitedRole = some role ∧
      environment.redeemInvitation invitation role = .ok enrollment ∧
      (∃ row ∈ run.2.db .tasks, row.taskId = some (boundText invitation.taskId) ∧
        row.mode = invitation.topology ∧ row.role = invitation.invitedRole) ∧
      Enrolled environment invitation.taskId invitation.trackerUrl enrollment run.2.db := by
  have hwp : Wp (joinInvitation noFault environment token localRoot)
      (fun _ c' => ∃ invitation role enrollment,
        parseInvitation token = .ok invitation ∧
        parseRole invitation.invitedRole = some role ∧
        environment.redeemInvitation invitation role = .ok enrollment ∧
        (∃ row ∈ c'.db .tasks, row.taskId = some (boundText invitation.taskId) ∧
          row.mode = invitation.topology ∧ row.role = invitation.invitedRole) ∧
        Enrolled environment invitation.taskId invitation.trackerUrl enrollment c'.db)
      (fun _ c' => c'.db = db) ⟨db, none, executed⟩ := by
    rw [joinInvitation, wp_bind]
    refine wp_check (fun _ _ => rfl) fun invitation hinvitation => ?_
    rw [wp_bind]
    refine wp_check (fun _ _ => rfl) fun _ _ => wp_ite (fun _ => rfl) fun _ => ?_
    rw [wp_bind]
    refine wp_check (fun _ _ => rfl) fun role hrole => ?_
    have hrole' : parseRole invitation.invitedRole = some role := by
      rw [invitedRole] at hrole
      split at hrole
      · rename_i role' hparse
        cases hrole
        exact hparse
      · cases hrole
    rw [wp_bind]
    refine wp_select (fun found n hfound => ?_) fun _ _ _ => rfl
    -- a task that is there already is checked; one that is not is inserted, and may have to go
    -- again
    cases found with
    | none =>
      obtain ⟨hne, hnone⟩ := findTask_eq_none hfound
      show Wp (createTask noFault environment _ >>= _) _ _ _
      rw [wp_bind]
      refine wp_mono (wp_createTask rfl) (fun _ c₁ hcreated => ?_) fun _ _ hsame => hsame
      obtain ⟨hidle, hdb, hkeys⟩ := hcreated
      have hrow : (⟨invitation.taskId, invitation.topology, invitation.invitedRole, localRoot⟩ :
          TaskDefinition).row environment.createdAtMs ∈ c₁.db .tasks := by
        rw [hdb, insertTaskRows, insertRow_of_ne (by decide), insertRow_self]
        exact List.mem_append_right _ (List.mem_singleton_self _)
      rw [wp_bind]
      refine wp_select (fun task n htask => ?_) fun e n herror => ?_
      · cases task with
        | none => exact absurd rfl ((findTask_eq_none htask).2 _ hrow)
        | some task =>
          have hidle' : Connection.Idle { c₁ with executed := n } := hidle
          refine wp_orElse (wp_mono (wp_enroll hidle' (findTask_eq_some htask).2.1 hne)
            (fun _ c' henrolled => ?_) fun e c' hsame => ?_)
          · obtain ⟨enrollment, hredeem, henrolled, htasks⟩ := henrolled
            obtain ⟨htopology, hinvited⟩ := boundText_of_wellFormed hinvitation
            refine ⟨invitation, role, enrollment, hinvitation, hrole', hredeem,
              ⟨_, htasks ▸ hrow, rfl, htopology, hinvited⟩, henrolled⟩
          -- what comes after the insertion has failed, and the task is deleted again
          · exact wp_undo h.foreignKeys hne hnone environment.createdAtMs hsame.1
              (hsame.2.trans hdb) (hsame.2 ▸ hkeys)
      · rw [Tables.findTask, if_neg hne] at herror
        cases herror
    | some task =>
      obtain ⟨hne, hid, row, hrow, hrowId, hmode, hrowRole⟩ := findTask_eq_some hfound
      show Wp (check _ >>= _) _ _ _
      rw [wp_bind]
      refine wp_check (fun _ _ => rfl) fun u hmatches => ?_
      have hidle : Connection.Idle ⟨db, none, n⟩ := rfl
      refine wp_mono (wp_enroll hidle hid hne) (fun _ c' henrolled => ?_) fun _ _ hsame => hsame.2
      obtain ⟨enrollment, hredeem, henrolled, htasks⟩ := henrolled
      have hsame : task.mode = invitation.topology ∧ task.role = invitation.invitedRole := by
        rw [matchesInvitation] at hmatches
        split at hmatches
        · cases hmatches
        · rename_i hsame
          rwa [not_or, not_ne_iff, not_ne_iff] at hsame
      refine ⟨invitation, role, enrollment, hinvitation, hrole', hredeem, ⟨row, ?_, hrowId,
        hmode.trans hsame.1, hrowRole.trans hsame.2⟩, henrolled⟩
      rw [htasks]
      exact hrow
  intro run
  rw [Wp] at hwp
  rcases hrun : run with ⟨e' | connection', c'⟩
  · rw [show joinInvitation noFault environment token localRoot _ = _ from hrun] at hwp
    refine ⟨fun _ _ => hwp, fun _ hreturn => ?_⟩
    cases hreturn
  · rw [show joinInvitation noFault environment token localRoot _ = _ from hrun] at hwp
    refine ⟨fun _ hthrow => ?_, fun _ _ => hwp⟩
    cases hthrow

end Join

/-! ## A device with two rows -/

/-- A text of this length. -/
def filled (c : Char) (n : Nat) : Bytes := List.replicate n c.toUInt8

/-- An invitation to the task `t` by the device whose fingerprint is `aa…`. -/
def invitationOfA : ParsedInvitation where
  trackerUrl := ascii "https://tracker"
  taskId := ascii "t"
  topology := ascii "one_way"
  invitedRole := ascii "target"
  code := ascii "code"
  creatorDeviceId := filled 'd' 32
  creatorFingerprint := filled 'a' 64

/-- The enrollment of a tracker that has two rows for the creator, with different fingerprints. -/
def enrollmentTwice : TrackerEnrollment where
  roomId := ascii "room"
  authorizationDigest := filled '0' 64
  sessionToken := ascii "token"
  sessionExpiresAtMs := 1
  members := [⟨filled 'd' 32, filled 'a' 64, .source⟩, ⟨filled 'd' 32, filled 'b' 64, .source⟩]

/-- A tracker that answers with this enrollment. -/
def trackerTwice : JoinEnvironment where
  isDirectory _ := .ok true
  weaklyCanonical path := .ok path
  requireDatabaseOutside _ := .ok ()
  createdAtMs := 1
  httpFactory := .ok ()
  post _ _ _ := .ok ⟨200,
    ascii "OK\troom\t" ++ filled '0' 64 ++ ascii "\ttoken\t1\tMEMBERS\nMEMBER\t" ++
      filled 'd' 32 ++ [tab] ++ filled 'a' 64 ++ ascii "\tsource\nMEMBER\t" ++
      filled 'd' 32 ++ [tab] ++ filled 'b' 64 ++ ascii "\tsource\nEND\n"⟩
  now := 1

/-- The tables of a new database, apart from its migrations. -/
def newTables : Tables := fun _ => []

/-- Joining with this invitation. -/
def joinTwice : Except Error TaskConnection × Connection Tables :=
  joinInvitation noFault trackerTwice (invitationToken invitationOfA) (ascii "/root")
    ⟨newTables, none, 0⟩

/-- **A member that is not stored**: the call returns, and the fingerprint that the invitation was
checked against is not in the table. -/
theorem join_invitation_two_rows :
    joinTwice.1 = .ok ⟨ascii "t", ascii "https://tracker", ascii "room", filled '0' 64, 1⟩ ∧
      trackerTwice.redeemInvitation invitationOfA .target = .ok enrollmentTwice ∧
      ∃ member ∈ enrollmentTwice.members, ∀ row ∈ joinTwice.2.db .taskMembers,
        ¬ (row.deviceId = member.deviceId ∧ row.fingerprint = member.fingerprint) :=
  ⟨by decide +kernel, by decide +kernel, by decide +kernel⟩

/-- Its last row is. -/
theorem join_invitation_last_row : ∃ invitation role enrollment,
    parseInvitation (invitationToken invitationOfA) = .ok invitation ∧
    parseRole invitation.invitedRole = some role ∧
    trackerTwice.redeemInvitation invitation role = .ok enrollment ∧
    (∃ row ∈ joinTwice.2.db .tasks, row.taskId = some (boundText invitation.taskId) ∧
      row.mode = invitation.topology ∧ row.role = invitation.invitedRole) ∧
    Enrolled trackerTwice invitation.taskId invitation.trackerUrl enrollment joinTwice.2.db := by
  have hvalid : Valid schema newTables := ⟨by decide, by decide⟩
  have hreturn : joinTwice.1 =
      .ok ⟨ascii "t", ascii "https://tracker", ascii "room", filled '0' 64, 1⟩ := by decide +kernel
  exact (join_invitation trackerTwice newTables 0 _ (ascii "/root") hvalid).2 _ hreturn

end VeritasSync
