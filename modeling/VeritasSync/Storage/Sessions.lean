import VeritasSync.Storage.Migrations
import VeritasSync.Storage.TaskRows

/-!
# The database over its whole life

The program opens the database at every start, lets `ApplyMigrations` bring it to the last version,
and calls the functions.  A session can end anywhere: in the middle of a migration, between two
calls, or in one.

A session starts from the file that the last one has left, and all it knows is that this is a file
of some version with sound rows.  That is enough: the start brings it to the last version or leaves
it at one in between, the calls keep the rows consistent, and a session that ends in the middle of a
call loses an open transaction and nothing else.

## What is here

* `Statement.versions`, `Call.versions` — the functions leave the table of the versions alone.
* `Session`, `afterSession` — a start and the calls after it.
* `sessions_run` — **the file in every run of sessions**.
-/

set_option autoImplicit false

namespace VeritasSync

namespace Storage

open Exec Relational Transaction

variable {version : Nat} {s : Stored}

/-! ## Calls leave the versions alone -/

section Calls

variable {db db' : Tables} {u : Unit}

theorem Statement.versions (statement : Statement) (hwrite : statement.write db = .ok (u, db')) :
    db' .schemaMigrations = db .schemaMigrations := by
  cases statement with
  | createTask createdAtMs outside definition =>
    obtain ⟨-, -, -, -, rfl⟩ := insertTask_ok hwrite
    exact (insertRow_of_ne (by decide)).trans (insertRow_of_ne (by decide))
  | updateTaskNetworkState taskId networkStatus networkError =>
    obtain ⟨-, -, -, rfl⟩ := updateOne_ok hwrite
    exact updateRows_of_ne (by decide)
  | setTaskEnabled taskId enabled =>
    obtain ⟨-, -, -, rfl⟩ := updateOne_ok hwrite
    exact updateRows_of_ne (by decide)
  | updateTaskRuntime taskId status dirty lastScanAtMs lastError =>
    obtain ⟨-, -, -, rfl⟩ := updateOne_ok hwrite
    exact updateRows_of_ne (by decide)
  | configureTaskConnection connection =>
    obtain ⟨-, rfl⟩ := write_connection_eq hwrite
    exact upsertRow_of_ne (by decide)
  | upsertTaskMember member =>
    obtain ⟨-, rfl⟩ := write_member_eq hwrite
    exact upsertRow_of_ne (by decide)
  | upsertFileRecord record =>
    obtain ⟨-, -, rfl⟩ := upsert_ok hwrite
    exact upsertRow_of_ne (by decide)
  | recordVersionLineage lineage =>
    obtain ⟨existing, -, hrest⟩ := ok_of_bind hwrite
    cases existing with
    | some existing =>
      obtain ⟨-, hrest⟩ := unless_eq_ok.mp hrest
      cases hrest
      rfl
    | none =>
      obtain ⟨-, -, -, rfl⟩ := insert_ok hrest
      exact insertRow_of_ne (by decide)
  | advanceLogicalClock taskId observed =>
    obtain ⟨⟨n, db''⟩, hadvance, heq⟩ := ok_of_map hwrite
    cases heq
    obtain ⟨-, -, -, rfl⟩ := advanceClock_ok hadvance
    -- only the migrations themselves write the table of the versions
    have hne : TableName.schemaMigrations ≠ .taskClocks := by decide
    dsimp only
    rw [upsertRow_of_ne hne]
  | recordConflict conflict =>
    obtain ⟨-, -, -, rfl⟩ := insert_ok hwrite
    exact insertRow_of_ne (by decide)
  | updateConflictState conflictId state =>
    obtain ⟨-, -, -, rfl⟩ := updateOne_ok hwrite
    exact updateRows_of_ne (by decide)
  | recordEngineEvent event =>
    rw [write] at hwrite
    split at hwrite
    · cases hwrite
    obtain ⟨-, -, -, rfl⟩ := insert_ok hwrite
    exact insertRow_of_ne (by decide)
  | savePendingIgnorePolicy policy =>
    obtain ⟨-, -, rfl⟩ := upsert_ok hwrite
    exact upsertRow_of_ne (by decide)
  | clearPendingIgnorePolicy taskId =>
    obtain ⟨db'', hexecute, heq⟩ := ok_of_map hwrite
    cases heq
    obtain ⟨-, rfl⟩ := execute_eq_ok_iff.mp hexecute
    have hne : TableName.schemaMigrations ≠ .pendingIgnorePolicies := by decide
    rw [delete_pending]
    exact List.filter_eq_self.mpr fun row _ => by rw [onTable_of_ne hne]; rfl
  | createTransfer transfer =>
    obtain ⟨-, -, -, rfl⟩ := insert_ok hwrite
    exact insertRow_of_ne (by decide)
  | updateTransferState transferId state updatedAtMs errorCode =>
    obtain ⟨-, -, -, rfl⟩ := updateOne_ok hwrite
    exact updateRows_of_ne (by decide)

theorem Call.versions (call : Call) (h : Consistent db) (hrun : call.run db = .ok (u, db')) :
    db' .schemaMigrations = db .schemaMigrations := by
  cases call with
  | one s => exact s.versions (Statement.run_ok hrun).2
  | deleteTask taskId =>
    rw [run] at hrun
    split at hrun
    · cases hrun
    rw [deleteRows_eq _ h.valid.foreignKeys] at hrun
    split at hrun
    · cases hrun
    cases hrun
    exact List.filter_eq_self.mpr fun row _ => rfl
  | recordIgnorePolicyRevision revision =>
    obtain ⟨_, -, hrest⟩ := ok_of_bind hrun
    obtain ⟨⟨number, db''⟩, hrows, heq⟩ := ok_of_map hrest
    cases heq
    obtain ⟨-, -, -, rfl⟩ := revisionRows_ok hrows
    have hstate : TableName.schemaMigrations ≠ .ignorePolicyState := by decide
    have hrevisions : TableName.schemaMigrations ≠ .ignorePolicyRevisions := by decide
    dsimp only
    rw [upsertRow_of_ne hstate, insertRow_of_ne hrevisions]
  | markTransferChunksCompleted transferId chunkIndices updatedAtMs =>
    obtain ⟨_, -, hrest⟩ := ok_of_bind hrun
    obtain ⟨⟨u₁, db₁⟩, hmarks, htouch⟩ := ok_of_bind hrest
    have hmarked : db₁ .schemaMigrations = db .schemaMigrations := by
      refine each_invariant (I := fun db₂ => db₂ .schemaMigrations = db .schemaMigrations)
        (fun _ _ db₂ db₃ hmark hdb₂ => ?_) hmarks rfl
      obtain ⟨-, -, rfl⟩ := upsert_ok hmark
      exact (upsertRow_of_ne (by decide)).trans hdb₂
    obtain ⟨-, -, -, rfl⟩ := updateOne_ok htouch
    exact (updateRows_of_ne (by decide)).trans hmarked
  | inTransaction body thrown =>
    obtain ⟨⟨u₁, db₁⟩, hbody, hend⟩ := ok_of_bind hrun
    have hkept : db₁ .schemaMigrations = db .schemaMigrations := by
      refine each_invariant (I := fun db₂ => db₂ .schemaMigrations = db .schemaMigrations)
        (fun s _ db₂ db₃ hs hdb₂ => ?_) hbody rfl
      exact (s.versions (Statement.run_ok hs).2).trans hdb₂
    cases thrown with
    | none =>
      cases hend
      exact hkept
    | some e => cases hend

/-- A call that throws changes nothing, and one that returns keeps what is kept. -/
theorem step_versions {fault : Nat → Option Error} {c : Connection Tables} (call : Call)
    (hidle : c.Idle) (h : Consistent c.db) :
    (step fault c call).db .schemaMigrations = c.db .schemaMigrations := by
  have hperform : Atomic fault (call.perform fault) call.run := atomic_perform call
  have hatomic := hperform c hidle
  rw [Wp] at hatomic
  rcases hrun : call.perform fault c with ⟨e | u, c'⟩
  · rw [hrun] at hatomic
    rw [step, hrun]
    exact congrFun hatomic.1 _
  · rw [hrun] at hatomic
    rw [step, hrun]
    exact call.versions h hatomic.1

end Calls

/-! ## Sessions -/

/-- What the program does from one opening of the file to the next: it starts, and if it has
started, its functions are called.  The storage fails what it fails, and the process may end. -/
structure Session where
  fault : Nat → Option Error
  nowMs : Nat → Int
  calls : List Call

/-- `ApplyMigrations`, on the connection that the constructor has opened. -/
def Session.start (session : Session) (s : Stored) : Except Error Unit × Connection Stored :=
  applyMigrations session.fault session.nowMs ⟨s, none, 0⟩

/-- The connection of the functions. -/
def Session.connection (session : Session) (s : Stored) : Connection Tables :=
  let c := (session.start s).2
  ⟨c.db.rows, c.saved.map Stored.rows, c.executed⟩

/-- The file after a session.  A transaction that is still open is lost. -/
def afterSession (s : Stored) (session : Session) : Stored :=
  let c := (session.start s).2
  match (session.start s).1 with
  | .error _ => c.saved.getD c.db
  | .ok _ =>
    let c' := Run.run (step session.fault) (session.connection s) session.calls
    ⟨c.db.objects, c'.saved.getD c'.db⟩

/-- What is known of a session that finds the file as `s`. -/
structure SessionBehaves (s : Stored) (session : Session) : Prop where
  /-- The start may only bring the file to a later version, and to the last one if it returns. -/
  migrates : ∃ version version', Migrated version version' s (session.start s).2.db ∧
    ∀ u, (session.start s).1 = .ok u → version' = 8
  /-- It throws what the storage throws. -/
  cause : ∀ e, (session.start s).1 = .error e → ∃ i, session.fault i = some e
  /-- When it returns, the functions find what they rely on, and behave. -/
  started : ∀ u, (session.start s).1 = .ok u →
    Consistent (session.connection s).db ∧
      Run.Along (step session.fault) (Behaves session.fault) (session.connection s) session.calls

/-- The rows of a file of the last version can be changed by the functions. -/
theorem WellFormed.of_consistent (h : WellFormed 8 s) {rows : Tables} (hrows : Consistent rows)
    (hversions : rows .schemaMigrations = s.rows .schemaMigrations) :
    WellFormed 8 ⟨s.objects, rows⟩ := by
  have hobjects : s.objects = objectsAt 8 :=
    h.objects.resolve_right fun hnone => absurd hnone.2 (by decide)
  have hall : ∀ object, object ∈ objectsAt 8 := by
    intro object
    cases object with
    | table t => cases t <;> decide
    | column column => cases column <;> decide
    | index index => cases index <;> decide
    | runtimeTrigger => decide
  refine ⟨le_refl 8, .inl hobjects, ?_, fun object hobject => ?_, hrows.valid, hrows.allowed,
    hrows.named, fun _ => hrows.runtime, hrows.numbers, hrows.current, hrows.newest⟩
  · show (rows .schemaMigrations).map _ = _
    rw [hversions]
    exact h.versions
  · exact absurd (hobjects ▸ hall object) hobject

/-- The calls after a start. -/
theorem calls_behave (fault : Nat → Option Error) {c : Connection Tables} (calls : List Call)
    (hidle : c.Idle) (h : Consistent c.db) :
    Run.Along (step fault) (Behaves fault) c calls ∧ (Run.run (step fault) c calls).Idle ∧
      Consistent (Run.run (step fault) c calls).db ∧
      (Run.run (step fault) c calls).db .schemaMigrations = c.db .schemaMigrations := by
  have hstep : ∀ c' call, c'.Idle ∧ Consistent c'.db ∧
      c'.db .schemaMigrations = c.db .schemaMigrations →
      (step fault c' call).Idle ∧ Consistent (step fault c' call).db ∧
        (step fault c' call).db .schemaMigrations = c.db .schemaMigrations := by
    intro c' call hc'
    obtain ⟨hidle', hconsistent, hsame⟩ := hc'
    have hbehaves : Behaves fault c' call ∧ (step fault c' call).Idle ∧
      Consistent (step fault c' call).db := call_behaves call hidle' hconsistent
    obtain ⟨-, hidle'', hafter⟩ := hbehaves
    exact ⟨hidle'', hafter, (step_versions call hidle' hconsistent).trans hsame⟩
  refine ⟨?_, Run.run_invariant_all hstep calls ⟨hidle, h, rfl⟩⟩
  refine Run.along_of_invariant (I := fun c' => c'.Idle ∧ Consistent c'.db)
    (fun c' call _ hc' => ?_) calls c (Run.along_of_forall fun _ _ => trivial) ⟨hidle, h⟩
  exact call_behaves call hc'.1 hc'.2

/-- **A session**: it behaves, and leaves a file of a version not before the one that it found. -/
theorem session_behaves (session : Session) (h : WellFormed version s) :
    SessionBehaves s session ∧
      ∃ version', version ≤ version' ∧ WellFormed version' (afterSession s session) := by
  have hstart : Wp (applyMigrations session.fault session.nowMs) _ _ ⟨s, none, 0⟩ :=
    wp_applyMigrations h rfl rfl
  rw [Wp] at hstart
  rcases hrun : session.start s with ⟨e | u, c⟩
  · rw [← Session.start, hrun] at hstart
    obtain ⟨hidle, ⟨version', hmigrated⟩, hfault⟩ := hstart
    refine ⟨⟨⟨version, version', by rw [hrun]; exact hmigrated, fun u hu => ?_⟩, fun e' he' => ?_,
      fun u hu => ?_⟩, version', hmigrated.le, ?_⟩
    · rw [hrun] at hu
      cases hu
    · rw [hrun] at he'
      cases he'
      exact hfault
    · rw [hrun] at hu
      cases hu
    · rw [afterSession, hrun]
      show WellFormed version' (c.saved.getD c.db)
      rw [hidle]
      exact hmigrated.after
  · rw [← Session.start, hrun] at hstart
    obtain ⟨hidle, hmigrated⟩ := hstart
    have hconnection : session.connection s = ⟨c.db.rows, none, c.executed⟩ := by
      rw [Session.connection, hrun, hidle]
      rfl
    have hconsistent : Consistent (session.connection s).db := by
      rw [hconnection]
      exact hmigrated.after.consistent
    have hidle' : (session.connection s).Idle := congrArg Connection.saved hconnection
    obtain ⟨halong, hidle'', hafter, hversions⟩ :=
      calls_behave session.fault session.calls hidle' hconsistent
    refine ⟨⟨⟨version, 8, by rw [hrun]; exact hmigrated, fun _ _ => rfl⟩, fun e' he' => ?_,
      fun _ _ => ⟨hconsistent, halong⟩⟩, 8, h.known, ?_⟩
    · rw [hrun] at he'
      cases he'
    · rw [afterSession, hrun]
      show WellFormed 8 ⟨c.db.objects, Option.getD _ _⟩
      rw [hidle'']
      refine hmigrated.after.of_consistent hafter (hversions.trans ?_)
      rw [hconnection]

/-- **The file over its whole life**, whatever the storage fails and wherever the program ends: its
version only grows, a start that returns has brought it to the last one, with the rows that the
migrations make of those before, and the functions find what they rely on. -/
theorem sessions_run (h : WellFormed version s) (sessions : List Session) :
    (∃ version', version ≤ version' ∧
      WellFormed version' (Run.run afterSession s sessions)) ∧
      Run.Along afterSession SessionBehaves s sessions := by
  refine ⟨Run.run_invariant_all (I := fun s' => ∃ version', version ≤ version' ∧
    WellFormed version' s') (fun s' session hs' => ?_) sessions ⟨version, le_refl _, h⟩,
    Run.along_of_invariant (I := fun s' => ∃ version', WellFormed version' s')
      (fun s' session _ hs' => ?_) sessions s (Run.along_of_forall fun _ _ => trivial)
      ⟨version, h⟩⟩
  · obtain ⟨version', hle, hfile⟩ := hs'
    obtain ⟨-, version'', hle', hfile'⟩ := session_behaves session hfile
    exact ⟨version'', le_trans hle hle', hfile'⟩
  · obtain ⟨version', hfile⟩ := hs'
    obtain ⟨hbehaves, version'', -, hfile'⟩ := session_behaves session hfile
    exact ⟨hbehaves, version'', hfile'⟩

/-- The program ends in its first start, at the statements of the sixth version. -/
def interrupted : Session where
  fault i := if 42 ≤ i then some (.runtimeError "disk I/O error") else none
  nowMs _ := 1000
  calls := []

/-- The next one goes on. -/
def continued : Session := ⟨noFault, fun _ => 2000, firstCalls⟩

/-- A new file. -/
theorem sessions_run_emptyFile :
    (∃ version', 0 ≤ version' ∧
      WellFormed version' (Run.run afterSession emptyFile [interrupted, continued])) ∧
      Run.Along afterSession SessionBehaves emptyFile [interrupted, continued] :=
  sessions_run wellFormed_emptyFile [interrupted, continued]

end Storage

end VeritasSync
