import VeritasSync.Common.Protocol
import VeritasSync.Lib.Run
import VeritasSync.Lib.Transaction
import VeritasSync.Storage.Database
import VeritasSync.Storage.IgnoreRules

/-!
# The history of a rule file

`.veritasignore` is a file that the user may edit, and its history is in two tables: a numbered row
for every text it was found or put in, and for each task a row that points at the newest one.
`Synchronize` takes down an edit, `Apply` replaces the file and records what it wrote, and `Undo`
applies the text of the row before the newest.

The file and the tables are not written together.  Between the two the process can stop, and at any
time another program can write the file.

What makes this delicate is that the file is the truth and the tables are the memory.  `Apply`
writes the file first and then the row, so when it stops in between, the file has a text that no row
knows; the next `Synchronize` finds it and takes it for an edit.  The rows therefore always form an
unbroken sequence in which no two neighbours have the same text, and the newest of them is what the
file contained when somebody last looked.

## What is here

* `PolicyTables`, `recordIgnorePolicyRevision` — the tables, and the transaction that adds to them.
* `IgnorePolicy.synchronize`, `IgnorePolicy.apply`, `IgnorePolicy.undo` — the three calls.
* `Recorded` — what the rows of a task are like, after any sequence of calls, edits and failures.
* `recordRevision_refines` — the list that `Database` has for one task is these two tables.
* `policy_history` — **the history is gapless, follows the file, and `Undo` is its own inverse**.

A stop of the process is a failure here: nothing that comes after it is executed except a rollback,
which is also what happens to an open transaction when the database is opened again.
-/

set_option autoImplicit false

namespace VeritasSync

open Exec Transaction

variable {H : Type}

/-! ## The tables -/

/-- A row of `ignore_policy_revisions`. -/
structure PolicyRow (H : Type) where
  taskId : Bytes
  revision : IgnorePolicyRevision H

/-- A row of `ignore_policy_state`, without its key. -/
structure PolicyStateRow (H : Type) where
  revision : Nat
  contentHash : H
  updatedAtMs : Int

/-- The two tables, with the keys of `tasks` that they refer to. -/
structure PolicyTables (H : Type) where
  tasks : List Bytes
  /-- `ignore_policy_revisions`, in the order of insertion. -/
  revisions : List (PolicyRow H)
  /-- `ignore_policy_state`, by task. -/
  state : OrdMap Bytes (PolicyStateRow H)

namespace PolicyTables

/-- The rows of a task. -/
def revisionsOf (t : PolicyTables H) (taskId : Bytes) : List (IgnorePolicyRevision H) :=
  (t.revisions.filter fun row => row.taskId = taskId).map PolicyRow.revision

/-- `SELECT COALESCE(MAX(revision), 0) + 1`, read as a 64-bit integer: past the largest one the sum
is a real number, and reading that gives the largest integer. -/
def nextRevision (t : PolicyTables H) (taskId : Bytes) : Nat :=
  min (((t.revisionsOf taskId).map IgnorePolicyRevision.revision).foldl max 0 + 1)
    Database.int64Max

/-- `INSERT INTO ignore_policy_revisions`: a row with a number that the task must not have yet, for
a task that there must be. -/
def insertRevision (t : PolicyTables H) (taskId : Bytes) (revision : IgnorePolicyRevision H) :
    Except Error (PolicyTables H) :=
  if (t.revisionsOf taskId).any fun row => row.revision = revision.revision then
    .error (.runtimeError ("insert ignore policy revision: UNIQUE constraint failed: " ++
      "ignore_policy_revisions.task_id, ignore_policy_revisions.revision"))
  else if taskId ∉ t.tasks then
    .error (.runtimeError "insert ignore policy revision: FOREIGN KEY constraint failed")
  else .ok { t with revisions := t.revisions ++ [⟨taskId, revision⟩] }

/-- `INSERT INTO ignore_policy_state … ON CONFLICT(task_id) DO UPDATE`. -/
def updateState (t : PolicyTables H) (taskId : Bytes) (row : PolicyStateRow H) :
    Except Error (PolicyTables H) :=
  if taskId ∉ t.tasks ∨ (t.revisionsOf taskId).all fun old => old.revision ≠ row.revision then
    .error (.runtimeError "update ignore policy state: FOREIGN KEY constraint failed")
  else .ok { t with state := t.state.insert taskId row }

/-- `Database::CurrentIgnorePolicyRevision`: the row the state row points at. -/
def currentIgnorePolicyRevision (t : PolicyTables H) (taskId : Bytes) :
    Option (IgnorePolicyRevision H) :=
  match t.state.find taskId with
  | none => none
  | some row => (t.revisionsOf taskId).find? fun revision => revision.revision = row.revision

/-- `Database::ListIgnorePolicyRevisions`: the newest rows first. -/
def listIgnorePolicyRevisions (t : PolicyTables H) (taskId : Bytes) (limit : Nat) :
    List (IgnorePolicyRevision H) :=
  ((t.revisionsOf taskId).insertionSort fun a b => b.revision ≤ a.revision).take limit

/-- What the transaction of `RecordIgnorePolicyRevision` does when no statement fails. -/
def recordRevision (t : PolicyTables H) (taskId content : Bytes) (contentHash : H)
    (source : PolicySource) (createdAtMs : Int) :
    Except Error (IgnorePolicyRevision H × PolicyTables H) := do
  let recorded := ⟨t.nextRevision taskId, content, contentHash, source, createdAtMs⟩
  let t ← t.insertRevision taskId recorded
  let t ← t.updateState taskId ⟨recorded.revision, contentHash, createdAtMs⟩
  pure (recorded, t)

end PolicyTables

/-- `Database::RecordIgnorePolicyRevision`.  The hash of a text has the length that is asked for,
and the number is never negative. -/
def recordIgnorePolicyRevision (fault : Nat → Option Error) (taskId content : Bytes)
    (contentHash : H) (source : PolicySource) (createdAtMs : Int) :
    Exec (Connection (PolicyTables H)) Error (IgnorePolicyRevision H) :=
  if taskId = [] ∨ content.length > 16 * 1024 ∨ !source.known ∨ createdAtMs ≤ 0 then
    raise (.invalidArgument "ignore policy revision is invalid")
  else
    inTransaction fault do
      let revision ← statement fault fun t => .ok (t.nextRevision taskId, t)
      let recorded := ⟨revision, content, contentHash, source, createdAtMs⟩
      statement fault fun t => (t.insertRevision taskId recorded).map fun t => ((), t)
      statement fault fun t =>
        (t.updateState taskId ⟨revision, contentHash, createdAtMs⟩).map fun t => ((), t)
      pure recorded

/-! ## The calls -/

/-- The rule files and the database.  Each task root has one file, or none. -/
structure PolicyWorld (H : Type) where
  /-- The contents of `.veritasignore`, by task root. -/
  files : OrdMap Path Bytes
  /-- How often a rule file was read or replaced. -/
  accesses : Nat
  connection : Connection (PolicyTables H)

/-- The failures that a call meets: of the statements and of the accesses to the rule files, by
their number. -/
structure Faults where
  statement : Nat → Option Error
  access : Nat → Option Error

/-- No failure. -/
def Faults.none : Faults := ⟨fun _ => .none, fun _ => .none⟩

/-- The failure is one of these. -/
def Faults.Has (faults : Faults) (e : Error) : Prop :=
  (∃ i, faults.statement i = some e) ∨ ∃ i, faults.access i = some e

namespace PolicyWorld

/-- What a reader finds in the file: nothing, if there is no file. -/
def text (w : PolicyWorld H) (root : Path) : Bytes := (w.files.find root).getD []

end PolicyWorld

namespace IgnorePolicy

variable {α : Type}

/-- Use the database and leave the files alone. -/
def onConnection (m : Exec (Connection (PolicyTables H)) Error α) :
    Exec (PolicyWorld H) Error α := fun w =>
  ((m w.connection).1, { w with connection := (m w.connection).2 })

/-- Read or replace a rule file. -/
def access (faults : Faults) (f : OrdMap Path Bytes → Except Error (α × OrdMap Path Bytes)) :
    Exec (PolicyWorld H) Error α := fun w =>
  match faults.access w.accesses, f w.files with
  | .none, .ok (a, files) => (.ok a, { w with files, accesses := w.accesses + 1 })
  | .none, .error e => (.error e, { w with accesses := w.accesses + 1 })
  | some e, _ => (.error e, { w with accesses := w.accesses + 1 })

/-- Read the database.  Reading can fail as well. -/
def query (faults : Faults) (f : PolicyTables H → α) : Exec (PolicyWorld H) Error α :=
  onConnection (statement faults.statement fun t => .ok (f t, t))

/-- `IgnorePolicy::ReadRules`: the text of the rule file, or the empty one if there is none. -/
def readRules (faults : Faults) (root : Path) : Exec (PolicyWorld H) Error Bytes :=
  access faults fun files =>
    match files.find root with
    | none => .ok ([], files)
    | some rules => (IgnoreRules.validate rules).map fun _ => (rules, files)

/-- `SafeFileWriter(task_root).WriteAtomically(".veritasignore", …)`: the file has the new text
afterwards, or still the old one, and which of the two is also a matter of the faults. -/
def writeAtomically (faults : Faults) (root : Path) (rules : Bytes) :
    Exec (PolicyWorld H) Error Unit :=
  access faults fun files => .ok ((), files.insert root rules)

/-- Record a text with its hash. -/
def recordText [ContentHash H] (faults : Faults) (taskId rules : Bytes) (source : PolicySource)
    (now : Int) : Exec (PolicyWorld H) Error (IgnorePolicyRevision H) :=
  onConnection (recordIgnorePolicyRevision faults.statement taskId rules (blake3 rules) source now)

variable [ContentHash H]

/-- `IgnorePolicy::Synchronize`: a text that somebody else has put into the file is recorded as a
revision. -/
def synchronize (faults : Faults) (taskId : Bytes) (root : Path) (now : Int) :
    Exec (PolicyWorld H) Error (IgnorePolicyRevision H) := do
  if taskId = [] ∨ now ≤ 0 then
    raise (.invalidArgument "ignore policy identity and timestamp are required")
  else
    let found ← query faults fun t => decide (taskId ∈ t.tasks)
    if !found then raise (.invalidArgument "ignore policy task does not exist")
    else
      let rules ← readRules faults root
      let current ← query faults fun t => t.currentIgnorePolicyRevision taskId
      match current with
      | none => recordText faults taskId rules .manual now
      | some current =>
        if current.contentHash ≠ blake3 rules ∨ current.content ≠ rules then
          recordText faults taskId rules .manual now
        else pure current

/-- `IgnorePolicy::Apply`: the file gets the new text and then the history a revision.  It refuses
if the file is not what the caller has seen. -/
def apply (faults : Faults) (taskId : Bytes) (root : Path) (expectedHash : H) (rules : Bytes)
    (source : PolicySource) (now : Int) :
    Exec (PolicyWorld H) Error (IgnorePolicyRevision H) := do
  check fun _ => IgnoreRules.validate rules
  if !source.known then raise (.invalidArgument "ignore policy source is invalid")
  else
    let current ← synchronize faults taskId root now
    if expectedHash ≠ current.contentHash then
      raise (.invalidArgument "ignore policy changed; refresh before applying")
    else if rules = current.content then pure current
    else
      writeAtomically faults root rules
      recordText faults taskId rules source now

/-- `IgnorePolicy::Undo`: the text of the revision before becomes the newest one. -/
def undo (faults : Faults) (taskId : Bytes) (root : Path) (expectedHash : H) (now : Int) :
    Exec (PolicyWorld H) Error (IgnorePolicyRevision H) := do
  let current ← synchronize faults taskId root now
  if expectedHash ≠ current.contentHash then
    raise (.invalidArgument "ignore policy changed; refresh before undoing")
  else
    let history ← query faults fun t => t.listIgnorePolicyRevisions taskId 2
    match history with
    | _ :: previous :: _ =>
      apply faults taskId root current.contentHash previous.content .undo now
    | _ => raise (.invalidArgument "ignore policy has no previous revision")

end IgnorePolicy

/-! ## What the rows of a task are like

Everything about the history follows from three facts about the rows: their numbers are one, two,
three and so on; neighbours have different texts; and the state row points at the last.  `Recorded`
says it, and the transaction that adds a row keeps it. -/

/-- The rows of a task. -/
structure Recorded [ContentHash H] (t : PolicyTables H) (taskId : Bytes) : Prop where
  /-- Numbered from one, without gaps. -/
  numbers : (t.revisionsOf taskId).map IgnorePolicyRevision.revision =
    List.range' 1 (t.revisionsOf taskId).length
  /-- Without a row there is no state row. -/
  unset : t.revisionsOf taskId = [] → t.state.find taskId = none
  /-- The state row points at the newest row. -/
  points : ∀ last, (t.revisionsOf taskId).getLast? = some last → ∃ row,
    t.state.find taskId = some row ∧ row.revision = (t.revisionsOf taskId).length ∧
      row.contentHash = last.contentHash
  /-- No row repeats the one before it. -/
  differ : (t.revisionsOf taskId).IsChain fun a b => a.content ≠ b.content
  hashes : ∀ row ∈ t.revisionsOf taskId, row.contentHash = blake3 row.content
  valid : ∀ row ∈ t.revisionsOf taskId, IgnoreRules.validate row.content = .ok ()
  task : t.revisionsOf taskId ≠ [] → taskId ≠ [] ∧ taskId ∈ t.tasks

/-- `t'` has one more row than `t`, and its state row points there. -/
structure Added (t t' : PolicyTables H) (taskId : Bytes) (row : IgnorePolicyRevision H) : Prop where
  rows : t'.revisionsOf taskId = t.revisionsOf taskId ++ [row]
  state : t'.state.find taskId = some ⟨row.revision, row.contentHash, row.createdAtMs⟩
  others : ∀ other, other ≠ taskId →
    t'.revisionsOf other = t.revisionsOf other ∧ t'.state.find other = t.state.find other
  tasks : t'.tasks = t.tasks
  number : row.revision = (t.revisionsOf taskId).length + 1
  task : taskId ∈ t.tasks

theorem foldl_max_range' (n : Nat) : (List.range' 1 n).foldl max 0 = n := by
  induction n with
  | zero => rfl
  | succ n ih =>
    rw [List.range'_1_concat, List.foldl_append, ih]
    simp only [List.foldl_cons, List.foldl_nil]
    omega

theorem PolicyTables.revisionsOf_append (t : PolicyTables H) (taskId other : Bytes)
    (row : IgnorePolicyRevision H) (state : OrdMap Bytes (PolicyStateRow H)) :
    PolicyTables.revisionsOf ⟨t.tasks, t.revisions ++ [⟨taskId, row⟩], state⟩ other =
      t.revisionsOf other ++ if taskId = other then [row] else [] := by
  simp only [PolicyTables.revisionsOf, List.filter_append, List.map_append]
  by_cases h : taskId = other
  · simp [h]
  · simp [h]

namespace Recorded

variable [ContentHash H] {t t' : PolicyTables H} {taskId other : Bytes}
  {row a b : IgnorePolicyRevision H} {pre : List (IgnorePolicyRevision H)}

theorem nextRevision (h : Recorded t taskId) : t.nextRevision taskId =
    min ((t.revisionsOf taskId).length + 1) Database.int64Max := by
  rw [PolicyTables.nextRevision, h.numbers, foldl_max_range']

/-- The numbers that are taken. -/
theorem any_revision (h : Recorded t taskId) (n : Nat) :
    ((t.revisionsOf taskId).any fun row => row.revision = n) =
      decide (1 ≤ n ∧ n ≤ (t.revisionsOf taskId).length) := by
  rw [Bool.eq_iff_iff, List.any_eq_true, decide_eq_true_iff]
  have hmem : n ∈ (t.revisionsOf taskId).map IgnorePolicyRevision.revision ↔
      1 ≤ n ∧ n ≤ (t.revisionsOf taskId).length := by
    rw [h.numbers, List.mem_range'_1]
    omega
  simpa using hmem

/-- The newest row has the number of rows for its number. -/
theorem revision_last (h : Recorded t taskId) (hrows : t.revisionsOf taskId = pre ++ [row]) :
    row.revision = pre.length + 1 ∧ ∀ old ∈ pre, old.revision < row.revision := by
  have hnumbers := h.numbers
  rw [hrows, List.length_append, List.length_singleton, List.range'_1_concat, List.map_append,
    List.map_singleton] at hnumbers
  obtain ⟨hpre, hrow⟩ := List.append_inj' hnumbers rfl
  have hnumber : row.revision = pre.length + 1 := (List.singleton_inj.mp hrow).trans (by omega)
  refine ⟨hnumber, fun old hold => ?_⟩
  have hmem := List.mem_map_of_mem (f := IgnorePolicyRevision.revision) hold
  rw [hpre, List.mem_range'_1] at hmem
  omega

/-- `CurrentIgnorePolicyRevision` finds the newest row. -/
theorem current (h : Recorded t taskId) :
    t.currentIgnorePolicyRevision taskId = (t.revisionsOf taskId).getLast? := by
  rcases List.eq_nil_or_concat (t.revisionsOf taskId) with hrows | ⟨pre, row, hrows⟩
  · rw [PolicyTables.currentIgnorePolicyRevision, h.unset hrows, hrows]
    rfl
  · rw [List.concat_eq_append] at hrows
    have hlast : (t.revisionsOf taskId).getLast? = some row := by
      rw [hrows, List.getLast?_concat]
    obtain ⟨state, hstate, hpoints, -⟩ := h.points row hlast
    obtain ⟨hnumber, hlt⟩ := h.revision_last hrows
    have hlength : (t.revisionsOf taskId).length = row.revision := by
      rw [hrows, List.length_append, List.length_singleton, hnumber]
    have hpre : pre.find? (fun old => decide (old.revision = row.revision)) = none := by
      refine List.find?_eq_none.mpr fun old hold => ?_
      simpa using ne_of_lt (hlt old hold)
    rw [hlast, PolicyTables.currentIgnorePolicyRevision, hstate]
    simp only [hpoints, hlength]
    rw [hrows, List.find?_append, hpre, Option.none_or, List.find?_singleton]
    simp

/-- `ListIgnorePolicyRevisions` has the newest row first, and then the one before it. -/
theorem list_two (h : Recorded t taskId) (hrows : t.revisionsOf taskId = pre ++ [a, b]) :
    t.listIgnorePolicyRevisions taskId 2 = [b, a] := by
  have hincreasing : (t.revisionsOf taskId).Pairwise fun a b => a.revision < b.revision := by
    refine List.pairwise_map.mp ?_
    rw [h.numbers]
    exact List.pairwise_lt_range'
  have hsort : ∀ l : List (IgnorePolicyRevision H),
      l.Pairwise (fun a b => a.revision < b.revision) →
      l.insertionSort (fun a b => b.revision ≤ a.revision) = l.reverse := by
    intro l hl
    induction l with
    | nil => rfl
    | cons c l ih =>
      obtain ⟨hc, hl⟩ := List.pairwise_cons.mp hl
      -- the oldest row goes to the end
      have hinsert : ∀ m : List (IgnorePolicyRevision H), (∀ d ∈ m, c.revision < d.revision) →
          m.orderedInsert (fun a b => b.revision ≤ a.revision) c = m ++ [c] := by
        intro m hm
        induction m with
        | nil => rfl
        | cons d m ihm =>
          rw [List.orderedInsert, if_neg (not_le.mpr (hm d List.mem_cons_self)),
            ihm fun e he => hm e (List.mem_cons_of_mem _ he), List.cons_append]
      rw [List.insertionSort_cons, ih hl, List.reverse_cons]
      exact hinsert _ fun d hd => hc d (List.mem_reverse.mp hd)
  rw [PolicyTables.listIgnorePolicyRevisions, hsort _ hincreasing, hrows, List.reverse_append]
  rfl

/-- The transaction adds a row, unless there is no task or no number left. -/
theorem recordRevision_cases (h : Recorded t taskId) (content : Bytes) (contentHash : H)
    (source : PolicySource) (now : Int) :
    (∃ row t', t.recordRevision taskId content contentHash source now = .ok (row, t') ∧
      Added t t' taskId row ∧ (t.revisionsOf taskId).length < Database.int64Max ∧
      row.content = content ∧ row.contentHash = contentHash ∧ row.source = source ∧
      row.createdAtMs = now) ∨
    ∃ e, t.recordRevision taskId content contentHash source now = .error e ∧
      ¬ (taskId ∈ t.tasks ∧ (t.revisionsOf taskId).length < Database.int64Max) := by
  have hpositive : 1 ≤ Database.int64Max := by decide
  rw [PolicyTables.recordRevision, h.nextRevision]
  by_cases hroom : (t.revisionsOf taskId).length < Database.int64Max
  · rw [min_eq_left (by omega)]
    by_cases htask : taskId ∈ t.tasks
    · left
      let row : IgnorePolicyRevision H :=
        ⟨(t.revisionsOf taskId).length + 1, content, contentHash, source, now⟩
      have hinsert : t.insertRevision taskId row =
          .ok { t with revisions := t.revisions ++ [⟨taskId, row⟩] } := by
        rw [PolicyTables.insertRevision, h.any_revision, if_neg, if_neg (not_not.mpr htask)]
        simp [row]
      have hrows : ∀ state other, PolicyTables.revisionsOf
          ⟨t.tasks, t.revisions ++ [⟨taskId, row⟩], state⟩ other =
            t.revisionsOf other ++ if taskId = other then [row] else [] := fun state other =>
        t.revisionsOf_append taskId other row state
      have hstate : PolicyTables.updateState
          { t with revisions := t.revisions ++ [⟨taskId, row⟩] } taskId
            ⟨row.revision, contentHash, now⟩ =
          .ok ⟨t.tasks, t.revisions ++ [⟨taskId, row⟩],
            t.state.insert taskId ⟨row.revision, contentHash, now⟩⟩ := by
        rw [PolicyTables.updateState, if_neg]
        rw [hrows t.state taskId]
        simp [htask, row]
      refine ⟨row, ⟨t.tasks, t.revisions ++ [⟨taskId, row⟩],
        t.state.insert taskId ⟨row.revision, contentHash, now⟩⟩, ?_,
        ⟨?_, ?_, fun other hother => ⟨?_, ?_⟩, rfl, rfl, htask⟩, hroom, rfl, rfl, rfl, rfl⟩
      · show (t.insertRevision taskId row >>= _) = _
        rw [hinsert]
        exact congrArg (· >>= fun t => pure (row, t)) hstate
      · rw [hrows, if_pos rfl]
      · exact (OrdMap.find_insert _ _ _ _).trans (if_pos rfl)
      · rw [hrows, if_neg (Ne.symm hother), List.append_nil]
      · exact OrdMap.find_insert_of_ne _ _ hother
    · right
      obtain ⟨e, he⟩ : ∃ e, t.insertRevision taskId
          ⟨(t.revisionsOf taskId).length + 1, content, contentHash, source, now⟩ = .error e := by
        rw [PolicyTables.insertRevision, h.any_revision, if_neg (by simp), if_pos htask]
        exact ⟨_, rfl⟩
      exact ⟨e, congrArg (· >>= _) he, fun hboth => htask hboth.1⟩
  · right
    rw [min_eq_right (by omega)]
    obtain ⟨e, he⟩ : ∃ e, t.insertRevision taskId
        ⟨Database.int64Max, content, contentHash, source, now⟩ = .error e := by
      rw [PolicyTables.insertRevision, h.any_revision,
        if_pos (decide_eq_true ⟨hpositive, not_lt.mp hroom⟩)]
      exact ⟨_, rfl⟩
    exact ⟨e, congrArg (· >>= _) he, fun hboth => hroom hboth.2⟩

/-- A row that differs from the newest one keeps the rows of the task as they should be. -/
theorem add (h : Recorded t taskId) (hadd : Added t t' taskId row)
    (hdiffer : ∀ last, (t.revisionsOf taskId).getLast? = some last → last.content ≠ row.content)
    (hhash : row.contentHash = blake3 row.content)
    (hvalid : IgnoreRules.validate row.content = .ok ()) (hid : taskId ≠ []) :
    Recorded t' taskId := by
  have hall : ∀ {P : IgnorePolicyRevision H → Prop}, (∀ r ∈ t.revisionsOf taskId, P r) → P row →
      ∀ r ∈ t'.revisionsOf taskId, P r := by
    intro P hold hnew r hr
    rw [hadd.rows] at hr
    rcases List.mem_append.mp hr with hr | hr
    · exact hold r hr
    · exact List.mem_singleton.mp hr ▸ hnew
  refine ⟨?_, fun hnil => ?_, fun last hlast => ?_, ?_, hall h.hashes hhash, hall h.valid hvalid,
    fun _ => ⟨hid, hadd.tasks ▸ hadd.task⟩⟩
  · rw [hadd.rows, List.map_append, h.numbers, List.length_append, List.length_singleton,
      List.range'_1_concat, List.map_singleton, hadd.number, Nat.add_comm]
  · rw [hadd.rows] at hnil
    exact absurd hnil (by simp)
  · rw [hadd.rows, List.getLast?_concat] at hlast
    obtain rfl := Option.some.inj hlast
    refine ⟨_, hadd.state, ?_, rfl⟩
    rw [hadd.rows, List.length_append, List.length_singleton]
    exact hadd.number
  · rw [hadd.rows]
    refine List.isChain_append.mpr ⟨h.differ, List.isChain_singleton _, fun last hlast r hr => ?_⟩
    obtain rfl : row = r := Option.some.inj hr
    exact hdiffer last hlast

/-- What is recorded for another task does not matter. -/
theorem of_other (h : Recorded t other) (hadd : Added t t' taskId row) (hother : other ≠ taskId) :
    Recorded t' other := by
  obtain ⟨hrows, hstate⟩ := hadd.others other hother
  refine ⟨?_, ?_, ?_, ?_, ?_, ?_, ?_⟩
  · rw [hrows]
    exact h.numbers
  · rw [hrows, hstate]
    exact h.unset
  · rw [hrows, hstate]
    exact h.points
  · rw [hrows]
    exact h.differ
  · rw [hrows]
    exact h.hashes
  · rw [hrows]
    exact h.valid
  · rw [hrows, hadd.tasks]
    exact h.task

/-! ### The rows of one task, as `Database` has them -/

/-- The list of revisions of `Database` stands for the two tables: the newest of the list is the row
the state row points at. -/
theorem current_refines {db : Database H} (h : Recorded t taskId)
    (hdb : db.policyRevisions = t.revisionsOf taskId) :
    t.currentIgnorePolicyRevision taskId = db.currentIgnorePolicyRevision := by
  rw [h.current, Database.currentIgnorePolicyRevision, hdb]

/-- What the transaction adds to the tables, `Database` adds to the list. -/
theorem recordRevision_refines {db : Database H} {content : Bytes} {contentHash : H}
    {source : PolicySource} {now : Int} (h : Recorded t taskId)
    (hdb : db.policyRevisions = t.revisionsOf taskId) (hlength : content.length ≤ 16 * 1024)
    (hsource : source.known) (hnow : 0 < now)
    (hrun : t.recordRevision taskId content contentHash source now = .ok (row, t')) :
    ∃ db', db.recordIgnorePolicyRevision content contentHash source now = .ok (row, db') ∧
      db'.policyRevisions = t'.revisionsOf taskId := by
  rcases h.recordRevision_cases content contentHash source now with
    ⟨row', t'', hok, hadd, -, rfl, rfl, rfl, rfl⟩ | ⟨e, herror, -⟩
  · cases hok.symm.trans hrun
    have hnumber : ((db.policyRevisions.map IgnorePolicyRevision.revision).foldl max 0) + 1 =
        row.revision := by
      rw [hdb, h.numbers, foldl_max_range', hadd.number]
    refine ⟨{ db with policyRevisions := db.policyRevisions ++ [row] }, ?_, ?_⟩
    · rw [Database.recordIgnorePolicyRevision, if_neg, hnumber]
      rintro (hbad | hbad | hbad)
      · exact absurd hlength (not_le.mpr hbad)
      · simp [hsource] at hbad
      · exact absurd hnow (not_lt.mpr hbad)
    · rw [hadd.rows, hdb]
  · exact absurd (herror.symm.trans hrun) nofun

end Recorded

/-! ## The calls, one after the other

For each call there are two structures: what it has done when it returns, and what is left when it
throws.  The second one is the longer story.  A call can stop at every access to the file and at
every statement, and all that can be said is which of the two, the file and the rows, it may have
changed by then. -/

namespace PolicyWorld

/-- The tables. -/
def tables (w : PolicyWorld H) : PolicyTables H := w.connection.db

/-- No transaction is open, and the rows of every task are as they should be. -/
structure Sound [ContentHash H] (w : PolicyWorld H) : Prop where
  idle : w.connection.Idle
  recorded : ∀ taskId, Recorded w.tables taskId

/-- Whatever happens to the files, and to the counters. -/
theorem Sound.of_same [ContentHash H] {w w' : PolicyWorld H} (hw : w.Sound)
    (htables : w'.tables = w.tables) (hsaved : w'.connection.saved = w.connection.saved) :
    w'.Sound :=
  ⟨hsaved.trans hw.idle, fun taskId => htables ▸ hw.recorded taskId⟩

/-- Only the rows of one task and the file of one root have changed. -/
structure Only (taskId : Bytes) (root : Path) (w w' : PolicyWorld H) : Prop where
  tasks : w'.tables.tasks = w.tables.tasks
  rows : ∀ other, other ≠ taskId → w'.tables.revisionsOf other = w.tables.revisionsOf other
  texts : ∀ other, other ≠ root → w'.text other = w.text other

theorem Only.of_same {taskId : Bytes} {root : Path} {w w' : PolicyWorld H}
    (htables : w'.tables = w.tables) (hfiles : w'.files = w.files) : Only taskId root w w' :=
  ⟨by rw [htables], fun _ _ => by rw [htables], fun _ _ => by rw [text, text, hfiles]⟩

theorem Only.trans {taskId : Bytes} {root : Path} {w w' w'' : PolicyWorld H}
    (h : Only taskId root w w') (h' : Only taskId root w' w'') : Only taskId root w w'' :=
  ⟨h'.tasks.trans h.tasks, fun other hne => (h'.rows other hne).trans (h.rows other hne),
    fun other hne => (h'.texts other hne).trans (h.texts other hne)⟩

theorem Only.of_added {taskId : Bytes} {root : Path} {w w' : PolicyWorld H}
    {row : IgnorePolicyRevision H} (hadd : Added w.tables w'.tables taskId row)
    (hfiles : w'.files = w.files) : Only taskId root w w' :=
  ⟨hadd.tasks, fun other hne => (hadd.others other hne).1, fun _ _ => by rw [text, text, hfiles]⟩

/-- What a call asks for besides its own arguments: a task, a valid file and numbers to count on
with. -/
structure Able (w : PolicyWorld H) (taskId : Bytes) (root : Path) (now : Int) : Prop where
  id : taskId ≠ []
  time : 0 < now
  task : taskId ∈ w.tables.tasks
  valid : IgnoreRules.validate (w.text root) = .ok ()
  room : (w.tables.revisionsOf taskId).length + 1 < Database.int64Max

end PolicyWorld

namespace IgnorePolicy

open PolicyWorld

section Rules

variable {α : Type} {faults : Faults} {w : PolicyWorld H} {Q : α → PolicyWorld H → Prop}
  {E : Error → PolicyWorld H → Prop}

theorem wp_onConnection {m : Exec (Connection (PolicyTables H)) Error α} :
    Wp (onConnection m) Q E w ↔
      Wp m (fun a c => Q a { w with connection := c }) (fun e c => E e { w with connection := c })
        w.connection := by
  rw [Wp, Wp, onConnection]
  rcases m w.connection with ⟨e | a, c⟩
  · exact Iff.rfl
  · exact Iff.rfl

theorem wp_query {f : PolicyTables H → α}
    (hok : ∀ c : Connection (PolicyTables H), c.db = w.tables → c.saved = w.connection.saved →
      Q (f w.tables) { w with connection := c })
    (herror : ∀ (c : Connection (PolicyTables H)) e, c.db = w.tables →
      c.saved = w.connection.saved → faults.Has e → E e { w with connection := c }) :
    Wp (query faults f) Q E w := by
  rw [query, wp_onConnection, Wp, statement]
  cases hfault : faults.statement w.connection.executed with
  | none => exact hok _ rfl rfl
  | some e => exact herror _ _ rfl rfl (.inl ⟨_, hfault⟩)

theorem wp_access {f : OrdMap Path Bytes → Except Error (α × OrdMap Path Bytes)}
    (hok : ∀ a files, f w.files = .ok (a, files) →
      Q a { w with files, accesses := w.accesses + 1 })
    (herror : ∀ e, faults.Has e ∨ f w.files = .error e →
      E e { w with accesses := w.accesses + 1 }) : Wp (access faults f) Q E w := by
  rw [Wp, access]
  cases hfault : faults.access w.accesses with
  | some e => exact herror _ (.inl (.inr ⟨_, hfault⟩))
  | none =>
    cases hf : f w.files with
    | error e => exact herror _ (.inr hf)
    | ok r => exact hok r.1 r.2 hf

/-- `ReadRules` returns what is in the file, and that is valid. -/
theorem wp_readRules {Q : Bytes → PolicyWorld H → Prop} {root : Path}
    (hok : IgnoreRules.validate (w.text root) = .ok () →
      Q (w.text root) { w with accesses := w.accesses + 1 })
    (herror : ∀ e, faults.Has e ∨ IgnoreRules.validate (w.text root) ≠ .ok () →
      E e { w with accesses := w.accesses + 1 }) : Wp (readRules faults root) Q E w := by
  refine wp_access (fun rules files h => ?_) fun e h => herror e (h.imp_right fun h => ?_)
  · cases hfile : w.files.find root with
    | none =>
      have htext : w.text root = [] := by rw [text, hfile, Option.getD_none]
      simp only [hfile] at h
      cases h
      rw [htext] at hok
      exact hok (by decide)
    | some content =>
      have htext : w.text root = content := by rw [text, hfile, Option.getD_some]
      simp only [hfile] at h
      cases hvalid : IgnoreRules.validate content with
      | error e =>
        rw [hvalid] at h
        cases h
      | ok u =>
        rw [hvalid] at h
        cases h
        rw [htext] at hok
        exact hok hvalid
  · cases hfile : w.files.find root with
    | none =>
      simp only [hfile] at h
      cases h
    | some content =>
      have htext : w.text root = content := by rw [text, hfile, Option.getD_some]
      simp only [hfile] at h
      rw [htext]
      intro hvalid
      rw [hvalid] at h
      cases h

end Rules

/-- The statements of the transaction are `recordRevision`, one after the other. -/
theorem implements_recordRevision (fault : Nat → Option Error) (taskId content : Bytes)
    (contentHash : H) (source : PolicySource) (now : Int) :
    Implements fault (do
      let revision ← statement fault fun t : PolicyTables H => .ok (t.nextRevision taskId, t)
      let recorded := ⟨revision, content, contentHash, source, now⟩
      statement fault fun t => (t.insertRevision taskId recorded).map fun t => ((), t)
      statement fault fun t =>
        (t.updateState taskId ⟨revision, contentHash, now⟩).map fun t => ((), t)
      pure recorded) fun t => t.recordRevision taskId content contentHash source now := by
  refine ((implements_statement _).bind fun revision => (implements_statement _).bind fun _ =>
    (implements_statement _).bind fun _ => implements_pure _).congr fun t => ?_
  rw [PolicyTables.recordRevision]
  show (t.insertRevision taskId _ >>= _) = (Except.map _ (t.insertRevision taskId _) >>= _)
  cases t.insertRevision taskId
    ⟨t.nextRevision taskId, content, contentHash, source, now⟩ with
  | error e => rfl
  | ok t1 =>
    show (t1.updateState taskId _ >>= _) = (Except.map _ (t1.updateState taskId _) >>= _)
    cases t1.updateState taskId ⟨t.nextRevision taskId, contentHash, now⟩ with
    | error e => rfl
    | ok t2 => rfl

variable [ContentHash H] {faults : Faults} {w w' : PolicyWorld H} {taskId : Bytes} {root : Path}
  {now : Int} {rules : Bytes} {source : PolicySource}

theorem length_le_of_validate (h : IgnoreRules.validate rules = .ok ()) :
    rules.length ≤ 16 * 1024 := by
  rw [IgnoreRules.validate, unless_eq_ok] at h
  exact not_lt.mp h.1

/-- Recording a text that differs from the newest one. -/
theorem wp_recordText (hw : w.Sound)
    (hdiffer : ∀ last, (w.tables.revisionsOf taskId).getLast? = some last → last.content ≠ rules)
    (hvalid : IgnoreRules.validate rules = .ok ()) :
    Wp (recordText faults taskId rules source now)
      (fun row w' => w'.Sound ∧ Added w.tables w'.tables taskId row ∧ row.content = rules ∧
        row.contentHash = blake3 rules ∧ w'.files = w.files)
      (fun e w' => w'.Sound ∧ w'.tables = w.tables ∧ w'.files = w.files ∧
        (faults.Has e ∨ ¬ (taskId ≠ [] ∧ source.known ∧ 0 < now ∧ taskId ∈ w.tables.tasks ∧
          (w.tables.revisionsOf taskId).length < Database.int64Max))) w := by
  rw [recordText, wp_onConnection, recordIgnorePolicyRevision]
  refine wp_ite (fun hbad => ?_) fun hgood => ?_
  · refine ⟨hw, rfl, rfl, .inr fun hable => ?_⟩
    rcases hbad with hbad | hbad | hbad | hbad
    · exact hable.1 hbad
    · exact absurd (length_le_of_validate hvalid) (not_le.mpr hbad)
    · simp [hable.2.1] at hbad
    · exact absurd hable.2.2.1 (not_lt.mpr hbad)
  · have hid : taskId ≠ [] := fun hid => hgood (.inl hid)
    have himplements := implements_recordRevision (H := H) faults.statement taskId rules
      (blake3 rules) source now
    rw [Wp]
    split
    · rename_i row c hrun
      obtain ⟨hrecord, hidle⟩ := himplements.inTransaction_ok hrun
      rcases (hw.recorded taskId).recordRevision_cases rules (blake3 rules) source now with
        ⟨row', t', hok, hadd, -, hcontent, hhash, -⟩ | ⟨e, herror, -⟩
      · cases hok.symm.trans hrecord
        refine ⟨⟨hidle, fun other => ?_⟩, hadd, hcontent, hhash, rfl⟩
        by_cases hother : other = taskId
        · subst hother
          refine (hw.recorded other).add hadd (fun last hlast => ?_) ?_ ?_ hid
          · rw [hcontent]
            exact hdiffer last hlast
          · rw [hhash, hcontent]
          · rw [hcontent]
            exact hvalid
        · exact (hw.recorded other).of_other hadd hother
      · exact absurd (herror.symm.trans hrecord) (by rintro ⟨⟩)
    · rename_i e c hrun
      obtain ⟨hdb, hidle, hcause⟩ := himplements.inTransaction_error hw.idle hrun
      refine ⟨⟨hidle, fun other => ?_⟩, hdb, rfl, ?_⟩
      · show Recorded c.db other
        rw [hdb]
        exact hw.recorded other
      · refine hcause.imp .inl fun herror hable => ?_
        rcases (hw.recorded taskId).recordRevision_cases rules (blake3 rules) source now with
          ⟨row', t', hok, -⟩ | ⟨e', -, hno⟩
        · exact absurd (herror.symm.trans hok) (by rintro ⟨⟩)
        · exact hno hable.2.2.2

/-- What `Synchronize` returns: the newest row, with the text of the file.  It adds no row if the
newest one has that text already. -/
structure Synced (w w' : PolicyWorld H) (taskId : Bytes) (root : Path)
    (row : IgnorePolicyRevision H) : Prop where
  sound : w'.Sound
  only : Only taskId root w w'
  files : w'.files = w.files
  valid : IgnoreRules.validate (w.text root) = .ok ()
  content : row.content = w.text root
  contentHash : row.contentHash = blake3 (w.text root)
  last : (w'.tables.revisionsOf taskId).getLast? = some row
  same : ∀ last, (w.tables.revisionsOf taskId).getLast? = some last →
    last.content = w.text root → w'.tables = w.tables
  length : (w'.tables.revisionsOf taskId).length ≤ (w.tables.revisionsOf taskId).length + 1

/-- What is left when `Synchronize` throws. -/
structure Unsynced (faults : Faults) (w w' : PolicyWorld H) (taskId : Bytes) (root : Path)
    (now : Int) (e : Error) : Prop where
  sound : w'.Sound
  only : Only taskId root w w'
  files : w'.files = w.files
  cause : faults.Has e ∨ ¬ Able w taskId root now

theorem wp_synchronize (hw : w.Sound) :
    Wp (synchronize faults taskId root now)
      (fun row w' => Synced w w' taskId root row)
      (fun e w' => Unsynced faults w w' taskId root now e) w := by
  have hstop : ∀ {w' : PolicyWorld H} {e : Error}, w'.tables = w.tables → w'.files = w.files →
      w'.connection.saved = w.connection.saved → faults.Has e ∨ ¬ Able w taskId root now →
      Unsynced faults w w' taskId root now e := fun htables hfiles hsaved hcause =>
    ⟨hw.of_same htables hsaved, .of_same htables hfiles, hfiles, hcause⟩
  rw [synchronize]
  refine wp_ite (fun hbad => ?_) fun hgood => ?_
  · refine hstop rfl rfl rfl (.inr fun hable => ?_)
    exact hbad.elim hable.id (not_le.mpr hable.time)
  rw [wp_bind]
  refine wp_query (fun c hdb hsaved => ?_) fun c e hdb hsaved hcause =>
    hstop hdb rfl hsaved (.inl hcause)
  refine wp_ite (fun htask => ?_) fun _ => ?_
  · refine hstop hdb rfl hsaved (.inr fun hable => ?_)
    simp [hable.task] at htask
  rw [wp_bind]
  refine wp_readRules (fun hvalid => ?_) fun e hcause =>
    hstop hdb rfl hsaved (hcause.imp_right fun hbad hable => hbad hable.valid)
  rw [wp_bind]
  refine wp_query (fun c' hdb' hsaved' => ?_) fun c' e hdb' hsaved' hcause =>
    hstop (hdb'.trans hdb) rfl (hsaved'.trans hsaved) (.inl hcause)
  -- the tables are still those of the start
  have htables : c'.db = w.tables := hdb'.trans hdb
  have hread : (PolicyWorld.mk w.files (w.accesses + 1) c').Sound :=
    hw.of_same htables (hsaved'.trans hsaved)
  have hcurrent : PolicyTables.currentIgnorePolicyRevision
      (PolicyWorld.tables ⟨w.files, w.accesses + 1, c⟩) taskId =
        (w.tables.revisionsOf taskId).getLast? := by
    rw [← (hw.recorded taskId).current, show PolicyWorld.tables ⟨w.files, w.accesses + 1, c⟩ =
      w.tables from hdb]
  have hrecord : (∀ last, (w.tables.revisionsOf taskId).getLast? = some last →
        last.content ≠ w.text root) →
      Wp (recordText faults taskId (w.text root) .manual now)
        (fun row w' => Synced w w' taskId root row)
        (fun e w' => Unsynced faults w w' taskId root now e) ⟨w.files, w.accesses + 1, c'⟩ := by
    intro hdiffer
    refine wp_mono (wp_recordText hread (fun last hlast => ?_) hvalid) ?_ ?_
    · rw [show PolicyWorld.tables ⟨w.files, w.accesses + 1, c'⟩ = w.tables from htables] at hlast
      exact hdiffer last hlast
    · rintro row w' ⟨hsound, hadd, hcontent, hhash, hfiles⟩
      rw [show PolicyWorld.tables ⟨w.files, w.accesses + 1, c'⟩ = w.tables from htables] at hadd
      refine ⟨hsound, .of_added hadd hfiles, hfiles, hvalid, hcontent, hhash, ?_, ?_, ?_⟩
      · rw [hadd.rows, List.getLast?_concat]
      · exact fun last hlast hsame => absurd hsame (hdiffer last hlast)
      · rw [hadd.rows, List.length_append, List.length_singleton]
    · rintro e w' ⟨hsound, hdb'', hfiles, hcause⟩
      rw [show PolicyWorld.tables ⟨w.files, w.accesses + 1, c'⟩ = w.tables from htables]
        at hdb'' hcause
      refine ⟨hsound, .of_same hdb'' hfiles, hfiles, hcause.imp_right fun hno hable => hno ?_⟩
      exact ⟨hable.id, rfl, hable.time, hable.task, Nat.lt_of_succ_lt hable.room⟩
  rw [hcurrent]
  cases hlast : (w.tables.revisionsOf taskId).getLast? with
  | none => exact hrecord (by rw [hlast]; nofun)
  | some current =>
    have hhash := (hw.recorded taskId).hashes current (List.mem_of_getLast? hlast)
    refine wp_ite (fun hdiffer => hrecord fun last hlast' hsame => ?_) fun hsame => ?_
    · obtain rfl := Option.some.inj (hlast.symm.trans hlast')
      rcases hdiffer with hdiffer | hdiffer
      · exact hdiffer (hhash.trans (congrArg _ hsame))
      · exact hdiffer hsame
    · push Not at hsame
      refine ⟨hread, .of_same htables rfl, rfl, hvalid, hsame.2, hsame.1, ?_,
        fun _ _ _ => htables, ?_⟩
      · show (c'.db.revisionsOf taskId).getLast? = _
        rw [htables, hlast]
      · show (c'.db.revisionsOf taskId).length ≤ _
        rw [htables]
        exact Nat.le_succ _

/-- What `Apply` and `Undo` return: the newest row, with the text that the file now has.  If that is
a new text, the row before has the old one. -/
structure Applied (w w' : PolicyWorld H) (taskId : Bytes) (root : Path) (expectedHash : H)
    (row : IgnorePolicyRevision H) : Prop where
  sound : w'.Sound
  only : Only taskId root w w'
  expected : expectedHash = blake3 (w.text root)
  last : (w'.tables.revisionsOf taskId).getLast? = some row
  content : row.content = w'.text root
  previous : w'.text root ≠ w.text root → ∃ pre old,
    w'.tables.revisionsOf taskId = pre ++ [old, row] ∧ old.content = w.text root

/-- What is left when `Apply` or `Undo` throws.  `P` is what it asks for besides. -/
structure Unapplied (faults : Faults) (w w' : PolicyWorld H) (taskId : Bytes) (root : Path)
    (expectedHash : H) (now : Int) (e : Error) (P : Prop) : Prop where
  sound : w'.Sound
  only : Only taskId root w w'
  stale : expectedHash ≠ blake3 (w.text root) → w'.files = w.files
  cause : faults.Has e ∨ ¬ (Able w taskId root now ∧ expectedHash = blake3 (w.text root) ∧ P)

variable {expectedHash : H}

theorem wp_apply (hw : w.Sound) :
    Wp (apply faults taskId root expectedHash rules source now)
      (fun row w' => Applied w w' taskId root expectedHash row ∧ w'.text root = rules)
      (fun e w' => Unapplied faults w w' taskId root expectedHash now e
        (IgnoreRules.validate rules = .ok () ∧ source.known)) w := by
  have hstart : Only taskId root w w := .of_same rfl rfl
  rw [apply, wp_bind]
  refine wp_check (fun e hinvalid => ?_) fun _ hvalid =>
    wp_ite (fun hunknown => ?_) fun hknown => ?_
  · exact ⟨hw, hstart, fun _ => rfl, .inr fun h => absurd (h.2.2.1.symm.trans hinvalid) nofun⟩
  · refine ⟨hw, hstart, fun _ => rfl, .inr fun h => ?_⟩
    simp [h.2.2.2] at hunknown
  rw [wp_bind]
  refine wp_mono (wp_synchronize hw) (fun current w1 hsync => ?_) fun e w1 hsync =>
    ⟨hsync.sound, hsync.only, fun _ => hsync.files,
      hsync.cause.imp_right fun hno h => hno h.1⟩
  have htext : w1.text root = w.text root := by rw [text, text, hsync.files]
  refine wp_ite (fun hstale => ?_) fun hexpected => ?_
  · rw [hsync.contentHash] at hstale
    exact ⟨hsync.sound, hsync.only, fun _ => hsync.files, .inr fun h => hstale h.2.1⟩
  have hexpected : expectedHash = blake3 (w.text root) :=
    (not_not.mp hexpected).trans hsync.contentHash
  refine wp_ite (fun hsame => ?_) fun hnew => ?_
  · rw [hsync.content] at hsame
    refine ⟨⟨hsync.sound, hsync.only, hexpected, hsync.last, hsync.content.trans htext.symm, ?_⟩,
      htext.trans hsame.symm⟩
    exact fun hne => absurd htext hne
  rw [hsync.content] at hnew
  rw [wp_bind]
  refine wp_access (fun _ files hfiles => ?_) fun e hcause => ?_
  · obtain ⟨-, rfl⟩ := Prod.mk.inj (Except.ok.inj hfiles)
    -- the file is replaced, the row is not there yet
    have hreplaced : (PolicyWorld.mk (w1.files.insert root rules) (w1.accesses + 1)
        w1.connection).Sound := hsync.sound.of_same rfl rfl
    have honly : Only taskId root w
        ⟨w1.files.insert root rules, w1.accesses + 1, w1.connection⟩ :=
      hsync.only.trans ⟨rfl, fun _ _ => rfl, fun other hother => by
        simp only [text]
        rw [OrdMap.find_insert_of_ne _ _ hother]⟩
    have hwritten : ∀ w' : PolicyWorld H, w'.files = w1.files.insert root rules →
        w'.text root = rules := by
      intro w' hfiles
      rw [text, hfiles, OrdMap.find_insert, if_pos rfl, Option.getD_some]
    refine wp_mono (wp_recordText hreplaced (fun last hlast => ?_) hvalid) ?_ ?_
    · have hcurrent : last = current := Option.some.inj (hlast.symm.trans hsync.last)
      rw [hcurrent, hsync.content]
      exact Ne.symm hnew
    · rintro row w' ⟨hsound, hadd, hcontent, -, hfiles⟩
      refine ⟨⟨hsound, honly.trans (.of_added hadd hfiles), hexpected, ?_, ?_, fun _ => ?_⟩,
        hwritten w' hfiles⟩
      · rw [hadd.rows, List.getLast?_concat]
      · exact hcontent.trans (hwritten w' hfiles).symm
      · obtain ⟨pre, hpre⟩ := List.getLast?_eq_some_iff.mp hsync.last
        refine ⟨pre, current, ?_, hsync.content⟩
        rw [hadd.rows]
        exact (congrArg (· ++ [row]) hpre).trans (List.append_assoc _ _ _)
    · rintro e w' ⟨hsound, htables, hfiles, hcause⟩
      refine ⟨hsound, honly.trans (.of_same htables hfiles), fun hstale => absurd hexpected hstale,
        hcause.imp_right fun hno h => hno ?_⟩
      have htasks : taskId ∈ w1.tables.tasks := hsync.only.tasks ▸ h.1.task
      exact ⟨h.1.id, h.2.2.2, h.1.time, htasks, lt_of_le_of_lt hsync.length h.1.room⟩
  · refine ⟨hsync.sound.of_same rfl rfl, hsync.only.trans (.of_same rfl rfl),
      fun hstale => absurd hexpected hstale, hcause.imp_right fun hno => ?_⟩
    cases hno

/-- The newest two rows: the text of the file, and the one before. -/
def Follows (w : PolicyWorld H) (taskId : Bytes) (root : Path) (old : Bytes) : Prop :=
  ∃ pre a b, w.tables.revisionsOf taskId = pre ++ [a, b] ∧ a.content = old ∧
    b.content = w.text root

/-- `Undo` puts back the text of the row before the newest. -/
theorem wp_undo (hw : w.Sound) :
    Wp (undo faults taskId root expectedHash now)
      (fun row w' => Applied w w' taskId root expectedHash row ∧
        ∀ old, Follows w taskId root old →
          w'.text root = old ∧ Follows w' taskId root (w.text root))
      (fun e w' => Unapplied faults w w' taskId root expectedHash now e
        (∃ old, Follows w taskId root old)) w := by
  rw [undo, wp_bind]
  refine wp_mono (wp_synchronize hw) (fun current w1 hsync => ?_) fun e w1 hsync =>
    ⟨hsync.sound, hsync.only, fun _ => hsync.files, hsync.cause.imp_right fun hno h => hno h.1⟩
  have htext : w1.text root = w.text root := by rw [text, text, hsync.files]
  have hunapplied : ∀ {w' : PolicyWorld H} {e : Error}, w'.Sound → Only taskId root w w' →
      w'.files = w.files → faults.Has e ∨ ¬ (expectedHash = blake3 (w.text root) ∧
        ∃ old, Follows w taskId root old) →
      Unapplied faults w w' taskId root expectedHash now e (∃ old, Follows w taskId root old) :=
    fun hsound honly hfiles hcause =>
      ⟨hsound, honly, fun _ => hfiles, hcause.imp_right fun hno h => hno h.2⟩
  refine wp_ite (fun hstale => ?_) fun hexpected => ?_
  · rw [hsync.contentHash] at hstale
    exact hunapplied hsync.sound hsync.only hsync.files (.inr fun h => hstale h.1)
  have hexpected : expectedHash = blake3 (w.text root) :=
    (not_not.mp hexpected).trans hsync.contentHash
  rw [wp_bind]
  refine wp_query (fun c hdb hsaved => ?_) fun c e hdb hsaved hcause =>
    hunapplied (hsync.sound.of_same hdb hsaved) (hsync.only.trans (.of_same hdb rfl)) hsync.files
      (.inl hcause)
  have hsound : (PolicyWorld.mk w1.files w1.accesses c).Sound := hsync.sound.of_same hdb hsaved
  have honly : Only taskId root w ⟨w1.files, w1.accesses, c⟩ := hsync.only.trans (.of_same hdb rfl)
  have htext2 : PolicyWorld.text ⟨w1.files, w1.accesses, c⟩ root = w.text root := htext
  -- where the newest row has the text of the file already, the rows are still those of the start
  have hfollows : ∀ old, Follows w taskId root old → ∃ a b,
      w1.tables.listIgnorePolicyRevisions taskId 2 = [b, a] ∧ a.content = old ∧
        IgnoreRules.validate a.content = .ok () ∧ old ≠ w.text root ∧ w1.tables = w.tables := by
    rintro old ⟨pre, a, b, hrows, ha, hb⟩
    have hlast : (w.tables.revisionsOf taskId).getLast? = some b := by
      rw [hrows]
      simp
    have hsame := hsync.same b hlast hb
    have hmem : a ∈ w.tables.revisionsOf taskId := by
      rw [hrows]
      simp
    have hchain := (hw.recorded taskId).differ
    rw [hrows] at hchain
    have hdiffer : a.content ≠ b.content :=
      (List.isChain_cons_cons.mp (List.isChain_append.mp hchain).2.1).1
    refine ⟨a, b, (hsync.sound.recorded taskId).list_two (hsame ▸ hrows), ha,
      (hw.recorded taskId).valid a hmem, ?_, hsame⟩
    rw [← ha, ← hb]
    exact hdiffer
  split
  · rename_i newest previous rest hlist
    have hprevious : ∀ old, Follows w taskId root old → previous.content = old ∧
        IgnoreRules.validate previous.content = .ok () ∧ old ≠ w.text root ∧
          w1.tables = w.tables := by
      intro old hold
      obtain ⟨a, b, hlist', hrest⟩ := hfollows old hold
      cases hlist'.symm.trans hlist
      exact hrest
    refine wp_mono (wp_apply hsound) ?_ ?_
    · rintro row w' ⟨happlied, hrestored⟩
      refine ⟨⟨happlied.sound, honly.trans happlied.only, hexpected, happlied.last,
        happlied.content, ?_⟩, fun old hold => ?_⟩
      · rw [← htext2]
        exact happlied.previous
      · obtain ⟨hold', -, hne, -⟩ := hprevious old hold
        have hnew : w'.text root = old := hrestored.trans hold'
        obtain ⟨pre, a, hrows, ha⟩ := happlied.previous (by rw [hnew, htext2]; exact hne)
        exact ⟨hnew, pre, a, row, hrows, ha.trans htext2, happlied.content⟩
    · intro e w' hun
      refine ⟨hun.sound, honly.trans hun.only, fun hstale => absurd hexpected hstale,
        hun.cause.imp_right fun hno h => ?_⟩
      obtain ⟨hable, -, old, hold⟩ := h
      obtain ⟨-, hvalid, -, hsame⟩ := hprevious old hold
      have hdb : PolicyWorld.tables ⟨w1.files, w1.accesses, c⟩ = w.tables := hdb.trans hsame
      refine hno ⟨⟨hable.id, hable.time, ?_, ?_, ?_⟩, ?_, hvalid, rfl⟩
      · rw [hdb]
        exact hable.task
      · rw [htext2]
        exact hable.valid
      · rw [hdb]
        exact hable.room
      · rw [hsync.contentHash, htext2]
  · rename_i hshort
    refine hunapplied hsound honly hsync.files (.inr ?_)
    rintro ⟨-, old, hold⟩
    obtain ⟨a, b, hlist, -⟩ := hfollows old hold
    exact hshort b a [] hlist

end IgnorePolicy

/-! ## Runs -/

/-- A call, without the task and the root it is about. -/
inductive PolicyCall (H : Type) where
  | synchronize (now : Int)
  | apply (expectedHash : H) (rules : Bytes) (source : PolicySource) (now : Int)
  | undo (expectedHash : H) (now : Int)

/-- What happens: a call, with the failures it meets, or somebody writes or removes a rule file. -/
inductive PolicyAction (H : Type) where
  | call (faults : Faults) (taskId : Bytes) (root : Path) (c : PolicyCall H)
  | edit (root : Path) (content : Option Bytes)

/-- The hash that the caller has seen. -/
def PolicyCall.expected : PolicyCall H → Option H
  | .synchronize _ => none
  | .apply expectedHash _ _ _ => some expectedHash
  | .undo expectedHash _ => some expectedHash

/-- The action is about another task, and another root. -/
def PolicyAction.Aside (taskId : Bytes) (root : Path) : PolicyAction H → Prop
  | .call _ taskId' root' _ => taskId' ≠ taskId ∧ root' ≠ root
  | .edit root' _ => root' ≠ root

variable [ContentHash H]

def PolicyCall.run (faults : Faults) (taskId : Bytes) (root : Path) :
    PolicyCall H → Exec (PolicyWorld H) Error (IgnorePolicyRevision H)
  | .synchronize now => IgnorePolicy.synchronize faults taskId root now
  | .apply expectedHash rules source now =>
    IgnorePolicy.apply faults taskId root expectedHash rules source now
  | .undo expectedHash now => IgnorePolicy.undo faults taskId root expectedHash now

namespace PolicyWorld

/-- Tasks without history, and rule files with whatever there is in them. -/
def create (tasks : List Bytes) (files : OrdMap Path Bytes) : PolicyWorld H :=
  ⟨files, 0, ⟨⟨tasks, [], OrdMap.empty⟩, none, 0⟩⟩

def step (w : PolicyWorld H) : PolicyAction H → PolicyWorld H
  | .call faults taskId root c => (c.run faults taskId root w).2
  | .edit root (some content) => { w with files := w.files.insert root content }
  | .edit root none => { w with files := w.files.erase root }

theorem sound_create (tasks : List Bytes) (files : OrdMap Path Bytes) :
    (create tasks files : PolicyWorld H).Sound :=
  ⟨rfl, fun _ => ⟨rfl, fun _ => rfl, nofun, List.isChain_nil, nofun, nofun, nofun⟩⟩

variable {w w' : PolicyWorld H} {faults : Faults} {taskId : Bytes} {root : Path}
  {expectedHash : H} {now : Int}

/-- A call keeps the rows of every task as they should be, and touches one task and one root. -/
theorem Sound.call (hw : w.Sound) (faults : Faults) (taskId : Bytes) (root : Path)
    (c : PolicyCall H) :
    (c.run faults taskId root w).2.Sound ∧ Only taskId root w (c.run faults taskId root w).2 := by
  have hwp : Wp (c.run faults taskId root) (fun _ w' => w'.Sound ∧ Only taskId root w w')
      (fun _ w' => w'.Sound ∧ Only taskId root w w') w := by
    cases c with
    | synchronize now =>
      exact wp_mono (IgnorePolicy.wp_synchronize hw) (fun _ _ h => ⟨h.sound, h.only⟩)
        fun _ _ h => ⟨h.sound, h.only⟩
    | apply expectedHash rules source now =>
      exact wp_mono (IgnorePolicy.wp_apply hw) (fun _ _ h => ⟨h.1.sound, h.1.only⟩)
        fun _ _ h => ⟨h.sound, h.only⟩
    | undo expectedHash now =>
      exact wp_mono (IgnorePolicy.wp_undo hw) (fun _ _ h => ⟨h.1.sound, h.1.only⟩)
        fun _ _ h => ⟨h.sound, h.only⟩
  exact of_wp hwp

theorem Sound.step (hw : w.Sound) (action : PolicyAction H) : (w.step action).Sound := by
  cases action with
  | call faults taskId root c => exact (hw.call faults taskId root c).1
  | edit root content =>
    cases content with
    | some content => exact hw.of_same rfl rfl
    | none => exact hw.of_same rfl rfl

theorem sound_run (hw : w.Sound) (as : List (PolicyAction H)) : (Run.run step w as).Sound :=
  Run.run_invariant_all (fun _ action h => h.step action) as hw

/-- What happens elsewhere leaves the task and its file alone. -/
theorem aside_run {as : List (PolicyAction H)} (hw : w.Sound)
    (haside : ∀ action ∈ as, action.Aside taskId root) :
    (Run.run step w as).tables.revisionsOf taskId = w.tables.revisionsOf taskId ∧
      (Run.run step w as).text root = w.text root ∧
      (Run.run step w as).tables.tasks = w.tables.tasks := by
  induction as generalizing w with
  | nil => exact ⟨rfl, rfl, rfl⟩
  | cons action as ih =>
    have hstep : (w.step action).tables.revisionsOf taskId = w.tables.revisionsOf taskId ∧
        (w.step action).text root = w.text root ∧
        (w.step action).tables.tasks = w.tables.tasks := by
      have hne := haside action List.mem_cons_self
      cases action with
      | call faults taskId' root' c =>
        have honly := (hw.call faults taskId' root' c).2
        exact ⟨honly.rows taskId (Ne.symm hne.1), honly.texts root (Ne.symm hne.2), honly.tasks⟩
      | edit root' content =>
        refine ⟨by cases content <;> rfl, ?_, by cases content <;> rfl⟩
        cases content with
        | some content =>
          rw [text, text, PolicyWorld.step, OrdMap.find_insert_of_ne _ _ (Ne.symm hne)]
        | none => rw [text, text, PolicyWorld.step, OrdMap.find_erase_of_ne _ (Ne.symm hne)]
    obtain ⟨hrows, htext, htasks⟩ := hstep
    obtain ⟨hrows', htext', htasks'⟩ := ih (hw.step action) fun action h =>
      haside action (List.mem_cons_of_mem _ h)
    exact ⟨hrows'.trans hrows, htext'.trans htext, htasks'.trans htasks⟩

/-- Whatever happens elsewhere meanwhile, the next `Undo` puts `old` back in the place of `new`:
every one that returns, and every one returns that has the hash of the file and meets no failure. -/
structure Undoes (w : PolicyWorld H) (taskId : Bytes) (root : Path) (old : Bytes)
    (next : PolicyWorld H → Prop) : Prop where
  restores : ∀ (aside : List (PolicyAction H)), (∀ action ∈ aside, action.Aside taskId root) →
    ∀ faults expectedHash now current w',
      IgnorePolicy.undo faults taskId root expectedHash now (Run.run step w aside) =
        (.ok current, w') → w'.text root = old ∧ next w'
  returns : ∀ (aside : List (PolicyAction H)), (∀ action ∈ aside, action.Aside taskId root) →
    ∀ now, 0 < now → (w.tables.revisionsOf taskId).length + 1 < Database.int64Max →
      ∃ current, (IgnorePolicy.undo .none taskId root (blake3 (w.text root)) now
        (Run.run step w aside)).1 = .ok current

/-- What the tables and the calls promise, in the state `w`. -/
structure History (w : PolicyWorld H) : Prop where
  /-- The rows are numbered `1..n`, the state row points at `n`, and no row repeats the one before
  it. -/
  rows : ∀ taskId, ∃ n,
    (w.tables.revisionsOf taskId).map IgnorePolicyRevision.revision = List.range' 1 n ∧
      (w.tables.state.find taskId).map PolicyStateRow.revision = (if n = 0 then none else some n) ∧
      (w.tables.revisionsOf taskId).IsChain fun a b => a.content ≠ b.content
  /-- A call that returns leaves the text of the file as the current row. -/
  follows : ∀ faults taskId root (c : PolicyCall H) current w',
    c.run faults taskId root w = (.ok current, w') →
      w'.tables.currentIgnorePolicyRevision taskId = some current ∧
        current.content = w'.text root
  /-- A caller who has not seen the file does not change it. -/
  stale : ∀ faults taskId root (c : PolicyCall H) expectedHash, c.expected = some expectedHash →
    expectedHash ≠ blake3 (w.text root) → (c.run faults taskId root w).2.files = w.files
  /-- After an `Apply` that changed the file, `Undo` goes back and the next one forward again. -/
  undoes : ∀ faults taskId root expectedHash rules source now current w',
    IgnorePolicy.apply faults taskId root expectedHash rules source now w = (.ok current, w') →
      w'.text root ≠ w.text root →
      Undoes w' taskId root (w.text root) fun w'' =>
        Undoes w'' taskId root (w'.text root) fun _ => True

/-- The rows that are there decide what an `Undo` does. -/
theorem undoes_of_follows {old : Bytes} (hw : w.Sound)
    (hfollows : IgnorePolicy.Follows w taskId root old)
    (hvalid : IgnoreRules.validate (w.text root) = .ok ())
    {next : PolicyWorld H → Prop}
    (hnext : ∀ w', w'.Sound → IgnorePolicy.Follows w' taskId root (w.text root) →
      w'.text root = old → next w') : Undoes w taskId root old next := by
  have hmoved : ∀ aside : List (PolicyAction H), (∀ action ∈ aside, action.Aside taskId root) →
      IgnorePolicy.Follows (Run.run step w aside) taskId root old := by
    intro aside haside
    obtain ⟨hrows, htext, -⟩ := aside_run hw haside
    obtain ⟨pre, a, b, hab, ha, hb⟩ := hfollows
    exact ⟨pre, a, b, hrows.trans hab, ha, hb.trans htext.symm⟩
  refine ⟨fun aside haside faults expectedHash now current w' hrun => ?_,
    fun aside haside now hnow hroom => ?_⟩
  · obtain ⟨-, htext, -⟩ := aside_run hw haside
    obtain ⟨happlied, hrestored⟩ := of_wp_run (IgnorePolicy.wp_undo (sound_run hw aside)) hrun
    obtain ⟨hold, hback⟩ := hrestored old (hmoved aside haside)
    rw [htext] at hback
    exact ⟨hold, hnext w' happlied.sound hback hold⟩
  · obtain ⟨hrows, htext, htasks⟩ := aside_run hw haside
    have hne : w.tables.revisionsOf taskId ≠ [] := by
      obtain ⟨pre, a, b, hab, -, -⟩ := hfollows
      rw [hab]
      simp
    obtain ⟨hid, htask⟩ := (hw.recorded taskId).task hne
    refine ok_of_wp (wp_mono (IgnorePolicy.wp_undo (sound_run hw aside)) (fun _ _ _ => trivial)
      fun e w' hun => ?_)
    refine hun.cause.elim (fun hhas => ?_) fun hno => hno ⟨⟨hid, hnow, ?_, ?_, ?_⟩, ?_, old,
      hmoved aside haside⟩
    · rcases hhas with ⟨i, hi⟩ | ⟨i, hi⟩
      · cases hi
      · cases hi
    · rw [htasks]
      exact htask
    · rw [htext]
      exact hvalid
    · rw [hrows]
      exact hroom
    · rw [htext]

theorem history_of_sound (hw : w.Sound) : History w := by
  refine ⟨fun taskId => ?_, fun faults taskId root c current w' hrun => ?_,
    fun faults taskId root c expectedHash hexpected hstale => ?_,
    fun faults taskId root expectedHash rules source now current w' hrun hnew => ?_⟩
  · have hrecorded := hw.recorded taskId
    refine ⟨_, hrecorded.numbers, ?_, hrecorded.differ⟩
    -- the last row of the history is the one the current policy points at
    rcases List.eq_nil_or_concat (w.tables.revisionsOf taskId) with hrows | ⟨pre, last, hrows⟩
    · rw [hrecorded.unset hrows, hrows]
      rfl
    · have hlast : (w.tables.revisionsOf taskId).getLast? = some last := by
        rw [hrows, List.concat_eq_append, List.getLast?_concat]
      obtain ⟨row, hrow, hnumber, -⟩ := hrecorded.points last hlast
      rw [hrow, if_neg]
      · rw [Option.map_some, hnumber]
      · rw [hrows]
        simp
  · have hwp : Wp (c.run faults taskId root) (fun current w' => w'.Sound ∧
        (w'.tables.revisionsOf taskId).getLast? = some current ∧
          current.content = w'.text root) (fun _ _ => True) w := by
      cases c with
      | synchronize now =>
        refine wp_mono (IgnorePolicy.wp_synchronize hw) (fun _ w' h => ⟨h.sound, h.last, ?_⟩)
          fun _ _ _ => trivial
        rw [h.content, text, text, h.files]
      | apply expectedHash rules source now =>
        exact wp_mono (IgnorePolicy.wp_apply hw)
          (fun _ _ h => ⟨h.1.sound, h.1.last, h.1.content⟩) fun _ _ _ => trivial
      | undo expectedHash now =>
        exact wp_mono (IgnorePolicy.wp_undo hw)
          (fun _ _ h => ⟨h.1.sound, h.1.last, h.1.content⟩) fun _ _ _ => trivial
    obtain ⟨hsound, hlast, hcontent⟩ := of_wp_run hwp hrun
    exact ⟨(hsound.recorded taskId).current.trans hlast, hcontent⟩
  · have hwp : Wp (c.run faults taskId root) (fun _ w' => w'.files = w.files)
        (fun _ w' => w'.files = w.files) w := by
      cases c with
      | synchronize now => cases hexpected
      | apply expected rules source now =>
        cases hexpected
        exact wp_mono (IgnorePolicy.wp_apply hw) (fun _ _ h => absurd h.1.expected hstale)
          fun _ _ h => h.stale hstale
      | undo expected now =>
        cases hexpected
        exact wp_mono (IgnorePolicy.wp_undo hw) (fun _ _ h => absurd h.1.expected hstale)
          fun _ _ h => h.stale hstale
    exact of_wp hwp
  -- the row before the new one is what an undo goes back to, and a second undo comes back
  · obtain ⟨happlied, htext⟩ := of_wp_run (IgnorePolicy.wp_apply hw) hrun
    obtain ⟨pre, old, hrows, hold⟩ := happlied.previous hnew
    have hvalid : ∀ row ∈ w'.tables.revisionsOf taskId, IgnoreRules.validate row.content = .ok () :=
      (happlied.sound.recorded taskId).valid
    have hvalidOld : IgnoreRules.validate (w.text root) = .ok () :=
      hold ▸ hvalid old (by rw [hrows]; simp)
    have hvalidNew : IgnoreRules.validate (w'.text root) = .ok () :=
      happlied.content ▸ hvalid current (by rw [hrows]; simp)
    refine undoes_of_follows happlied.sound ⟨pre, old, current, hrows, hold, happlied.content⟩
      hvalidNew fun w'' hsound hback hrestored => ?_
    refine undoes_of_follows hsound hback ?_ fun _ _ _ _ => trivial
    rw [hrestored]
    exact hvalidOld

/-- **The history is gapless and follows the file, and `Undo` is its own inverse**: whatever calls
were made, wherever they stopped, and whatever others wrote into the rule files meanwhile. -/
theorem policy_history (tasks : List Bytes) (files : OrdMap Path Bytes)
    (as : List (PolicyAction H)) : History (Run.run step (create tasks files) as) :=
  history_of_sound (sound_run (sound_create tasks files) as)

end PolicyWorld

end VeritasSync
