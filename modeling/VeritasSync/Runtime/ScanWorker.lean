import VeritasSync.Runtime.TaskRuntime

/-!
# The scan worker while tasks are loaded and deleted

`WorkerLoop` takes the tasks that are due and scans one after the other.  A scan takes and leaves
the locks several times, and so does `RecordFailure`, which an exception of the scan leads to; what
an exception of `RecordFailure` itself leads to is the end of the process.

`TaskDeleting` waits as long as a scan is under way, and then `DeleteTask` removes the rows of the
task.  But the scan is over for `TaskDeleting` before its result is in the database.

`LoadTask` reads the row of a task in one section and puts the entry into the map in another, and it
does not ask whether the entry that it replaces is being scanned.  So it can bring back an entry
whose row is gone, or take away the mark that `TaskDeleting` waits for.  A task that is created
while the worker runs is here a task that has not been loaded before.

`Phase` is the place in `PerformScan` or `RecordFailure` up to which the worker has come, between
two sections.  What the folder and the other statements come to is part of the action.

## What is here

* `ScanWorker.step` — the sections of the worker, and those of `LoadTask` and of a deletion that it
  can meet with.
* `ScanWorker.Sound` — the invariant.
* `worker_survives` — **no exception leaves the worker** if no task is deleted between the end of
  its scan and the statement that follows, and none is loaded during its scan or without its row.
* `deleted_after_scan` — a run in which a task is deleted there, and one in which it is loaded
  during its scan; `deletion_escapes` — any such deletion ends the process.
-/

set_option autoImplicit false

namespace VeritasSync

namespace TaskRuntime

/-! ## The sections

Each place in the code at which a lock is released is a boundary, and what lies between two
boundaries is one action.  The worker's own state is the list of scans that it still has to do and
the place in the current one. -/

/-- What the worker does next for the scan that it is at. -/
inductive Phase where
  /-- The first section of `PerformScan`. -/
  | task
  /-- The records and the rules before the walk. -/
  | baseline
  | walk
  | reconcile
  /-- The section in which the entry learns that the scan is over. -/
  | finish
  /-- The result is written to the database. -/
  | record
  | callback
  /-- The section of `RecordFailure` in which the entry learns that the scan is over. -/
  | failed
  /-- The failure is written to the database. -/
  | recordFailure
  deriving DecidableEq

/-- How many sections there are up to the end of the process when the task has no row. -/
def Phase.sections : Phase → Nat
  | .record => 3
  | .failed => 2
  | .recordFailure => 1
  | _ => 0

/-- The worker with what it shares with the thread that deletes tasks. -/
structure ScanWorker where
  entries : OrdMap Bytes Entry
  /-- The tasks in the database. -/
  tasks : Finset Bytes
  /-- `TaskDeleting` has returned, and `DeleteTask` follows. -/
  deleting : Finset Bytes := ∅
  scans : List (Bytes × UInt64) := []
  phase : Phase := .task
  /-- An exception has left `WorkerLoop`. -/
  escaped : Bool := false

namespace ScanWorker

/-- A section: what one thread does between two points at which it holds no lock. -/
inductive Action where
  /-- The worker looks for what is due. -/
  | collect (now : Nat)
  /-- The next section of the scan; whether what it does apart from the entries and the row of the
  task goes well, and whether the scan has found that it must be repeated. -/
  | scan (ok : Bool) (policyPending : Bool) (now : Nat)
  | markDirty (task : Bytes) (now : Nat)
  /-- The end of `LoadTask`, with what it has read in the database. -/
  | load (task : TaskDefinition) (enabled : Bool) (now : Nat)
  | taskDeleting (task : Bytes)
  | deleteTask (task : Bytes)
  deriving DecidableEq

/-- `WorkerLoop` goes on to the next scan. -/
def next (w : ScanWorker) : ScanWorker := { w with scans := w.scans.tail, phase := .task }

/-- Whether `UpdateTaskRuntime` finds the row of the task. -/
def hasRow (w : ScanWorker) (task : Bytes) : Bool := decide (task ∈ w.tasks)

/-- A section of the scan. -/
def advance (options : TaskRuntimeOptions) (w : ScanWorker) (task : Bytes) (generation : UInt64)
    (ok policyPending : Bool) (now : Nat) : ScanWorker :=
  match w.phase with
  | .task => { w with phase := if (w.entries.find task).isSome then .baseline else .failed }
  | .baseline => { w with phase := if ok then .walk else .failed }
  | .walk => { w with phase := if ok then .reconcile else .failed }
  | .reconcile => { w with phase := if ok then .finish else .failed }
  | .finish =>
    match w.entries.find task with
    | none => { w with phase := .failed }
    | some entry =>
      { w with
        entries := w.entries.insert task (entry.finished options now
          (policyPending || decide (entry.generation ≠ generation)))
        phase := .record }
  | .record => { w with phase := if w.hasRow task then .callback else .failed }
  | .callback => w.next
  | .failed =>
    match w.entries.find task with
    | none => { w with phase := .recordFailure }
    | some entry =>
      { w with
        entries := w.entries.insert task (entry.failed options now)
        phase := .recordFailure }
  | .recordFailure => if w.hasRow task then w.next else { w with escaped := true }

/-- A section.  One that is not possible does nothing. -/
def step (options : TaskRuntimeOptions) (w : ScanWorker) : Action → ScanWorker
  | .collect now =>
    if w.escaped || !w.scans.isEmpty then w
    else
      { w with
        entries := w.entries.mapValues fun _ entry =>
          if entry.isDue now then { entry with scanning := true } else entry
        scans := (w.entries.entries.filter fun p => p.2.isDue now).map fun p =>
          (p.1, p.2.generation)
        phase := .task }
  | .scan ok policyPending now =>
    if w.escaped then w
    else
      match w.scans with
      | [] => w
      | (task, generation) :: _ => w.advance options task generation ok policyPending now
  | .markDirty task now =>
    match w.entries.find task with
    | none => w
    | some entry =>
      if entry.enabled then { w with entries := w.entries.insert task (entry.marked options now) }
      else w
  | .load task enabled now =>
    { w with entries := w.entries.insert task.taskId (loaded options task enabled now) }
  | .taskDeleting task =>
    match w.entries.find task with
    | none => w
    | some entry =>
      if entry.scanning then w
      else { w with entries := w.entries.erase task, deleting := insert task w.deleting }
  | .deleteTask task =>
    if task ∈ w.deleting then
      { w with tasks := w.tasks.erase task, deleting := w.deleting.erase task }
    else w

/-- `DeleteTask` does not come between the end of the task's scan and the statement that follows,
and `LoadTask` finds the row that it has read still there, no deletion under way, and no scan. -/
def Spares (w : ScanWorker) : Action → Prop
  | .deleteTask task => ∀ scan ∈ w.scans.head?, scan.1 = task →
      w.phase ≠ .record ∧ w.phase ≠ .recordFailure
  | .load task _ _ => task.taskId ∈ w.tasks ∧ task.taskId ∉ w.deleting ∧
      ∀ entry ∈ w.entries.find task.taskId, entry.scanning = false
  | _ => True

instance (w : ScanWorker) : DecidablePred w.Spares
  | .deleteTask _ => inferInstanceAs (Decidable (∀ scan ∈ w.scans.head?, _))
  | .load task _ _ => inferInstanceAs (Decidable (_ ∧ _ ∧ ∀ entry ∈ w.entries.find task.taskId, _))
  | .collect _ | .scan .. | .markDirty .. | .taskDeleting _ => inferInstanceAs (Decidable True)

/-- The worker has not started: every entry has its row. -/
structure Ready (w : ScanWorker) : Prop where
  idle : w.scans = []
  alive : w.escaped = false
  row : ∀ task entry, w.entries.find task = some entry → task ∈ w.tasks ∧ task ∉ w.deleting

/-! ## The invariant

The worker is safe as long as the task it scans has its row when a statement needs it.  During a
scan that is seen to by the mark in the entry, for which `TaskDeleting` waits; when the mark is gone
a statement on the row is still to come, and nobody waits for it. -/

/-- `TaskDeleting` waits for the scan of the task. -/
def Scanning (w : ScanWorker) (task : Bytes) : Prop :=
  ∃ entry, w.entries.find task = some entry ∧ entry.scanning = true

/-- What is known of the task that is being scanned. -/
def Holds (w : ScanWorker) (task : Bytes) : Prop :=
  match w.phase with
  | .record | .recordFailure => task ∈ w.tasks
  | .callback => True
  | _ => w.Scanning task

/-- The invariant.  The tasks that wait are distinct, and no one deletes them. -/
structure Sound (w : ScanWorker) : Prop where
  alive : w.escaped = false
  row : ∀ task entry, w.entries.find task = some entry → task ∈ w.tasks ∧ task ∉ w.deleting
  distinct : (w.scans.map Prod.fst).Nodup
  current : ∀ scan ∈ w.scans.head?, w.Holds scan.1
  waiting : ∀ scan ∈ w.scans.tail, w.Scanning scan.1

variable {options : TaskRuntimeOptions} {w : ScanWorker} {task : Bytes}

/-- An entry is written, and the scans of the other tasks do not notice. -/
theorem Scanning.insert {other : Bytes} (h : w.Scanning other) {e : Entry}
    (he : task = other → e.scanning = true) :
    ScanWorker.Scanning { w with entries := w.entries.insert task e } other := by
  by_cases hother : task = other
  · exact ⟨e, hother ▸ OrdMap.find_insert_self .., he hother⟩
  · obtain ⟨old, hold, hscanning⟩ := h
    exact ⟨old, (OrdMap.find_insert_of_ne _ _ fun heq => hother heq.symm).trans hold, hscanning⟩

/-- The entries that can be read after one is written have a row. -/
theorem Sound.row_insert (h : w.Sound) {old e : Entry} (hold : w.entries.find task = some old) :
    ∀ other entry, (w.entries.insert task e).find other = some entry →
      other ∈ w.tasks ∧ other ∉ w.deleting := by
  intro other entry hentry
  by_cases hother : other = task
  · exact hother ▸ h.row task old hold
  · exact h.row other entry ((OrdMap.find_insert_of_ne _ _ hother).symm.trans hentry)

/-- The worker goes on to the next scan. -/
theorem Sound.next (h : w.Sound) : w.next.Sound where
  alive := h.alive
  row := h.row
  distinct := by
    rw [ScanWorker.next, List.map_tail]
    exact h.distinct.tail
  current scan hscan := h.waiting scan (List.mem_of_mem_head? hscan)
  waiting scan hscan := h.waiting scan (List.mem_of_mem_tail hscan)

/-- The worker goes on with the scan. -/
theorem Sound.phase (h : w.Sound) {p : Phase} {scan : Bytes × UInt64}
    (hscan : w.scans.head? = some scan)
    (hp : ScanWorker.Holds { w with phase := p } scan.1) : Sound { w with phase := p } where
  alive := h.alive
  row := h.row
  distinct := h.distinct
  current other hother := by
    cases hscan.symm.trans hother
    exact hp
  waiting := h.waiting

/-- The entry of the task learns that the scan is over. -/
theorem Sound.over (h : w.Sound) {p : Phase} (hp : p = .record ∨ p = .recordFailure)
    {generation : UInt64} {rest : List (Bytes × UInt64)}
    (hscans : w.scans = (task, generation) :: rest) {old : Entry}
    (hold : w.entries.find task = some old) (e : Entry) :
    Sound { w with entries := w.entries.insert task e, phase := p } where
  alive := h.alive
  row := h.row_insert hold
  distinct := h.distinct
  current scan hscan := by
    rw [hscans] at hscan
    cases hscan
    have hrow := (h.row task old hold).1
    rcases hp with rfl | rfl <;> exact hrow
  waiting scan hscan := by
    refine (h.waiting scan hscan).insert fun htask => ?_
    have hdistinct := h.distinct
    rw [hscans] at hscan hdistinct
    exact absurd (List.mem_map_of_mem hscan) (htask ▸ (List.nodup_cons.mp hdistinct).1)

theorem Sound.holds (h : w.Sound) {generation : UInt64} {rest : List (Bytes × UInt64)}
    (hscans : w.scans = (task, generation) :: rest) : w.Holds task :=
  h.current (task, generation) (by rw [hscans]; rfl)

/-- A section of the scan keeps the invariant. -/
theorem sound_advance (h : w.Sound) {generation : UInt64} {rest : List (Bytes × UInt64)}
    (hscans : w.scans = (task, generation) :: rest) (ok policyPending : Bool) (now : Nat) :
    (w.advance options task generation ok policyPending now).Sound := by
  have hhead : w.scans.head? = some (task, generation) := by rw [hscans]; rfl
  have hholds := h.holds hscans
  rw [advance]
  cases hphase : w.phase with
  | task =>
    rw [Holds, hphase] at hholds
    obtain ⟨entry, hentry, hscanning⟩ := hholds
    rw [hentry]
    exact h.phase hhead ⟨entry, hentry, hscanning⟩
  | baseline =>
    rw [Holds, hphase] at hholds
    cases ok <;> exact h.phase hhead hholds
  | walk =>
    rw [Holds, hphase] at hholds
    cases ok <;> exact h.phase hhead hholds
  | reconcile =>
    rw [Holds, hphase] at hholds
    cases ok <;> exact h.phase hhead hholds
  | finish =>
    rw [Holds, hphase] at hholds
    obtain ⟨entry, hentry, -⟩ := hholds
    dsimp only
    rw [hentry]
    exact h.over (.inl rfl) hscans hentry _
  | record =>
    rw [Holds, hphase] at hholds
    dsimp only
    rw [hasRow, decide_eq_true hholds]
    exact h.phase hhead trivial
  | callback => exact h.next
  | failed =>
    rw [Holds, hphase] at hholds
    obtain ⟨entry, hentry, -⟩ := hholds
    dsimp only
    rw [hentry]
    exact h.over (.inr rfl) hscans hentry _
  | recordFailure =>
    rw [Holds, hphase] at hholds
    dsimp only
    rw [hasRow, decide_eq_true hholds]
    exact h.next

/-- A section of another thread keeps the invariant if no scan loses its mark, or its row when it
needs it. -/
theorem Sound.keep (h : w.Sound) {entries : OrdMap Bytes Entry} {tasks deleting : Finset Bytes}
    (hrow : ∀ task entry, entries.find task = some entry → task ∈ tasks ∧ task ∉ deleting)
    (hscanning : ∀ task, w.Scanning task →
      ScanWorker.Scanning { w with entries, tasks, deleting } task)
    (htasks : ∀ scan ∈ w.scans.head?, w.phase = .record ∨ w.phase = .recordFailure →
      scan.1 ∈ w.tasks → scan.1 ∈ tasks) :
    Sound { w with entries, tasks, deleting } where
  alive := h.alive
  row := hrow
  distinct := h.distinct
  current scan hscan := by
    have hholds := h.current scan hscan
    rw [Holds] at hholds ⊢
    cases hphase : w.phase <;> rw [hphase] at hholds
    case record => exact htasks scan hscan (.inl hphase) hholds
    case recordFailure => exact htasks scan hscan (.inr hphase) hholds
    case callback => trivial
    all_goals exact hscanning scan.1 hholds
  waiting scan hscan := hscanning scan.1 (h.waiting scan hscan)

/-- The worker takes the tasks that are due. -/
theorem Sound.collect (h : w.Sound) (now : Nat) : (w.step options (.collect now)).Sound := by
  rw [step]
  split
  · exact h
  rename_i hidle
  have hscanning : ∀ scan ∈ ((w.entries.entries.filter fun p => p.2.isDue now).map fun p =>
      (p.1, p.2.generation)), ∃ e, (w.entries.mapValues fun _ entry =>
        if entry.isDue now then { entry with scanning := true } else entry).find scan.1 = some e ∧
          e.scanning = true := by
    intro scan hscan
    obtain ⟨p, hp, rfl⟩ := List.mem_map.mp hscan
    obtain ⟨hp, hdue⟩ := List.mem_filter.mp hp
    refine ⟨{ p.2 with scanning := true }, ?_, rfl⟩
    rw [OrdMap.find_mapValues, OrdMap.find_eq_some_iff.mpr hp, Option.map_some, if_pos hdue]
  exact {
    alive := h.alive
    row := by
      intro task entry hentry
      rw [OrdMap.find_mapValues] at hentry
      obtain ⟨old, hold, -⟩ := Option.map_eq_some_iff.mp hentry
      exact h.row task old hold
    distinct := by
      have hdistinct : (w.entries.entries.map Prod.fst).Nodup :=
        List.pairwise_map.mpr (w.entries.sorted.imp fun hlt => hlt.ne)
      rw [List.map_map]
      exact hdistinct.sublist (List.filter_sublist.map Prod.fst)
    current := fun scan hscan => hscanning scan (List.mem_of_mem_head? hscan)
    waiting := fun scan hscan => hscanning scan (List.mem_of_mem_tail hscan) }

/-- The section keeps the invariant. -/
theorem sound_step (h : w.Sound) {action : Action} (hspares : w.Spares action) :
    (w.step options action).Sound := by
  cases action with
  | collect now => exact h.collect now
  | scan ok policyPending now =>
    rw [step]
    split
    · exact h
    · split
      · exact h
      · rename_i hscans
        exact sound_advance h hscans ok policyPending now
  | markDirty task now =>
    rw [step]
    split
    · exact h
    · rename_i old hold
      split
      · refine h.keep (h.row_insert hold) (fun other hother => ?_) fun _ _ _ hrow => hrow
        refine hother.insert fun htask => ?_
        obtain ⟨entry, hentry, hscanning⟩ := hother
        cases (htask ▸ hold).symm.trans hentry
        exact hscanning
      · exact h
  | load task enabled now =>
    obtain ⟨hrow, hkept, hidle⟩ := hspares
    rw [step]
    refine h.keep (fun other entry hentry => ?_) (fun other hother => ?_) fun _ _ _ hrow => hrow
    · by_cases hother : other = task.taskId
      · exact hother ▸ ⟨hrow, hkept⟩
      · exact h.row other entry ((OrdMap.find_insert_of_ne _ _ hother).symm.trans hentry)
    · refine hother.insert fun htask => ?_
      -- the entry that is replaced has no mark, so no scan relies on it
      obtain ⟨entry, hentry, hscanning⟩ := hother
      rw [hidle entry (htask ▸ hentry)] at hscanning
      cases hscanning
  | taskDeleting task =>
    rw [step]
    split
    · exact h
    · rename_i old hold
      split
      · exact h
      · rename_i hscanning
        refine h.keep (fun other entry hentry => ?_) (fun other hother => ?_) fun _ _ _ hrow => hrow
        · have hne : other ≠ task := by
            rintro rfl
            cases (OrdMap.find_erase_self w.entries other).symm.trans hentry
          rw [OrdMap.find_erase_of_ne _ hne] at hentry
          exact ⟨(h.row other entry hentry).1, fun hmem => (Finset.mem_insert.mp hmem).elim hne
            (h.row other entry hentry).2⟩
        · obtain ⟨entry, hentry, hmark⟩ := hother
          refine ⟨entry, (OrdMap.find_erase_of_ne _ ?_).trans hentry, hmark⟩
          rintro rfl
          cases hold.symm.trans hentry
          exact hscanning hmark
  | deleteTask task =>
    rw [step]
    split
    · rename_i hdeleting
      refine h.keep (fun other entry hentry => ?_) (fun _ hother => hother)
        fun scan hscan hphase hrow => ?_
      · obtain ⟨hrow, hkept⟩ := h.row other entry hentry
        exact ⟨Finset.mem_erase.mpr ⟨fun heq => hkept (heq ▸ hdeleting), hrow⟩,
          fun hmem => hkept (Finset.mem_of_mem_erase hmem)⟩
      · refine Finset.mem_erase.mpr ⟨fun heq => ?_, hrow⟩
        exact hphase.elim (hspares scan hscan heq).1 (hspares scan hscan heq).2
    · exact h

/-! ## The worker survives -/

theorem Ready.sound (h : w.Ready) : w.Sound where
  alive := h.alive
  row := h.row
  distinct := by rw [h.idle]; exact List.nodup_nil
  current scan hscan := by rw [h.idle] at hscan; cases hscan
  waiting scan hscan := by rw [h.idle] at hscan; cases hscan

/-- **The worker survives** every run in which no task is deleted between the end of its scan and
the statement that writes the result, or the failure, to the database, and none is loaded while it
is scanned, or when its row is gone or about to go. -/
theorem worker_survives (options : TaskRuntimeOptions) (w : ScanWorker) (hready : w.Ready)
    (actions : List Action) (hspares : Run.Along (step options) Spares w actions) :
    (Run.run (step options) w actions).escaped = false :=
  (Run.run_invariant (fun _ _ hspares h => sound_step h hspares) actions w hspares
    hready.sound).alive

/-- A task that has been loaded. -/
def oneTask : ScanWorker where
  entries := OrdMap.empty.insert Manager.documents.taskId (loaded {} Manager.documents true 0)
  tasks := {Manager.documents.taskId}

/-- The scan of the task, with what follows it. -/
def scanOnce : List Action :=
  .collect 350 :: List.replicate 7 (.scan true false 360)

theorem oneTask_ready : oneTask.Ready where
  idle := rfl
  alive := rfl
  row task entry h := by
    obtain rfl : task = Manager.documents.taskId := by
      by_contra hne
      cases (OrdMap.find_insert_of_ne OrdMap.empty _ hne).symm.trans h
    exact ⟨Finset.mem_singleton_self _, Finset.notMem_empty _⟩

theorem worker_survives_oneTask :
    (Run.run (step {}) oneTask (scanOnce ++
      [.load Manager.documents true 370, .taskDeleting Manager.documents.taskId,
        .deleteTask Manager.documents.taskId])).escaped = false :=
  worker_survives {} oneTask oneTask_ready _ (by decide +kernel)

/-- The task is deleted when its scan is over and the result is not yet in the database; or it is
loaded during its scan, and `TaskDeleting` does not wait any more. -/
theorem deleted_after_scan :
    (Run.run (step {}) oneTask (scanOnce.take 6 ++
      [.taskDeleting Manager.documents.taskId, .deleteTask Manager.documents.taskId] ++
        List.replicate 3 (.scan true false 360))).escaped = true ∧
    (Run.run (step {}) oneTask (scanOnce.take 3 ++
      [.load Manager.documents true 355, .taskDeleting Manager.documents.taskId,
        .deleteTask Manager.documents.taskId] ++
          List.replicate 5 (.scan true false 360))).escaped = true := by
  decide +kernel

/-! ## After such a deletion -/

/-- An exception has left the worker, or it will within a number of its sections. -/
def Doomed (w : ScanWorker) (n : Nat) : Prop :=
  w.escaped = true ∨ 0 < w.phase.sections ∧ w.phase.sections ≤ n ∧
    ∃ scan, w.scans.head? = some scan ∧ scan.1 ∉ w.tasks

/-- A section of the worker. -/
def Action.isScan : Action → Bool
  | .scan .. => true
  | _ => false

/-- A section that is not the worker's leaves the way as it is. -/
theorem Doomed.other {n : Nat} (h : w.Doomed n) {w' : ScanWorker}
    (hescaped : w'.escaped = w.escaped) (hphase : w'.phase = w.phase)
    (hscans : w'.scans = w.scans) (htasks : w'.tasks ⊆ w.tasks) :
    w'.Doomed n := by
  refine h.imp hescaped.trans fun hway => ?_
  obtain ⟨hpos, hle, scan, hscan, hrow⟩ := hway
  exact ⟨hphase ▸ hpos, hphase ▸ hle, scan, hscans ▸ hscan, fun hmem => hrow (htasks hmem)⟩

/-- A section of the worker is one section less. -/
theorem Doomed.advance {n : Nat} (hpos : 0 < w.phase.sections) (hle : w.phase.sections ≤ n + 1)
    {generation : UInt64} {rest : List (Bytes × UInt64)}
    (hscans : w.scans = (task, generation) :: rest) (hrow : task ∉ w.tasks)
    (ok policyPending : Bool) (now : Nat) :
    (w.advance options task generation ok policyPending now).Doomed n := by
  have hnone : w.hasRow task = false := decide_eq_false hrow
  have hhead : w.scans.head? = some (task, generation) := by rw [hscans]; rfl
  rw [ScanWorker.advance]
  cases hphase : w.phase <;> rw [hphase] at hpos hle <;> dsimp only
  case record =>
    rw [hnone]
    exact .inr ⟨Nat.zero_lt_two, Nat.le_of_succ_le_succ hle, _, hhead, hrow⟩
  case failed =>
    split
    · exact .inr ⟨Nat.zero_lt_one, Nat.le_of_succ_le_succ hle, _, hhead, hrow⟩
    · exact .inr ⟨Nat.zero_lt_one, Nat.le_of_succ_le_succ hle, _, hhead, hrow⟩
  case recordFailure =>
    rw [hnone]
    exact .inl rfl
  all_goals cases hpos

theorem Doomed.step {n : Nat} (h : w.Doomed n) (action : Action) :
    (w.step options action).Doomed (n - if action.isScan then 1 else 0) := by
  cases action with
  | collect now =>
    rw [ScanWorker.step]
    split
    · exact h
    -- a round begins only after the last one, so the worker is not doomed here
    · rename_i hidle
      rcases h with h | ⟨-, -, scan, hscan, -⟩
      · rw [h] at hidle
        exact absurd rfl hidle
      · cases hscans : w.scans with
        | nil => rw [hscans] at hscan; cases hscan
        | cons => simp [hscans] at hidle
  | scan ok policyPending now =>
    rw [ScanWorker.step]
    split
    · rename_i hescaped
      exact .inl hescaped
    · rename_i halive
      obtain ⟨hpos, hle, scan, hscan, hrow⟩ := h.resolve_left halive
      cases hscans : w.scans with
      | nil => rw [hscans] at hscan; cases hscan
      | cons head rest =>
        rw [hscans] at hscan
        cases hscan
        refine Doomed.advance hpos ?_ hscans hrow ok policyPending now
        exact hle.trans (Nat.le_succ_of_pred_le le_rfl)
  | markDirty task now =>
    rw [ScanWorker.step]
    split
    · exact h
    · split
      · exact h.other rfl rfl rfl subset_rfl
      · exact h
  | load task enabled now => exact h.other rfl rfl rfl subset_rfl
  | taskDeleting task =>
    rw [ScanWorker.step]
    split
    · exact h
    · split
      · exact h
      · exact h.other rfl rfl rfl subset_rfl
  | deleteTask task =>
    rw [ScanWorker.step]
    split
    · exact h.other rfl rfl rfl (Finset.erase_subset ..)
    · exact h

theorem Doomed.run {n : Nat} (actions : List Action) (h : w.Doomed n) :
    (Run.run (ScanWorker.step options) w actions).Doomed (n - actions.countP Action.isScan) := by
  induction actions generalizing w n with
  | nil => exact h
  | cons action actions ih =>
    rw [List.countP_cons, Nat.add_comm, Nat.sub_add_eq]
    exact ih (h.step action)

/-- A task that is deleted between the end of its scan and the statement that follows ends the
process: three sections of the worker later at most, an exception has left it. -/
theorem deletion_escapes (options : TaskRuntimeOptions) (w : ScanWorker) (task : Bytes)
    (hdeleting : task ∈ w.deleting) (hspares : ¬ w.Spares (.deleteTask task))
    (actions : List Action) (hscans : 3 ≤ actions.countP Action.isScan) :
    (Run.run (step options) (w.step options (.deleteTask task)) actions).escaped = true := by
  obtain ⟨scan, hscan, rfl, hphase⟩ : ∃ scan ∈ w.scans.head?, scan.1 = task ∧
      (w.phase = .record ∨ w.phase = .recordFailure) := by
    by_contra hnone
    refine hspares fun scan hscan htask => ?_
    exact ⟨fun hphase => hnone ⟨scan, hscan, htask, .inl hphase⟩,
      fun hphase => hnone ⟨scan, hscan, htask, .inr hphase⟩⟩
  have hdoomed : (w.step options (.deleteTask scan.1)).Doomed 3 := by
    rw [step, if_pos hdeleting]
    refine .inr ⟨?_, ?_, scan, hscan, fun hmem => Finset.notMem_erase _ _ hmem⟩ <;> dsimp only <;>
      rcases hphase with h | h <;> rw [h] <;> decide
  have hrun : (Run.run (step options) _ actions).Doomed _ := hdoomed.run actions
  rcases hrun with h | ⟨hpos, hle, -⟩
  · exact h
  · omega

end ScanWorker

end TaskRuntime

end VeritasSync
