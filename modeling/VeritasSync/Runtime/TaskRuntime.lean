import VeritasSync.Lib.OrdMap
import VeritasSync.Lib.Run
import VeritasSync.Storage.TaskDeletion

/-!
# When the runtime scans a task

`TaskRuntimeManager` keeps an entry for each task: whether something in its folder has changed since
the last scan, whether a scan is under way, and a number that grows with every notification.  A scan
remembers the number it started with; at its end the task is clean if the number is still the same.
All this happens in short sections under a lock, and the sections of different threads come in any
order.

`LoadTask` replaces the entry, scan or no scan, and the new entry starts from the first number
again.  A scan that is under way then finds the number it has remembered, and takes the task for
clean although it has just been loaded as dirty.

The clock is read once for each section.  `news` is bookkeeping: that something was reported while
the scan was under way.

## What is here

* `Manager.step` — the sections.
* `Manager.Heeded` — the invariant: a scan that has missed something remembers another number.
* `scan_notified` — **no notification is lost** in a run in which no entry gets a number that a scan
  under way remembers.
* `resume_during_scan` — a run in which one does.

The scheme is a version of a sequence lock: the scan does not hold anything while it walks, and at
its end compares a number with the one it has seen.  Such a scheme is right if the number never
comes back to a value that somebody still remembers, and `LoadTask`, which starts again from the
first number, is where it does.
-/

set_option autoImplicit false

namespace VeritasSync

namespace TaskRuntime

/-! ## The sections -/

/-- `TaskRuntimeOptions`: the waiting times of the worker, in milliseconds. -/
structure TaskRuntimeOptions where
  debounce : Nat := 350
  errorRetry : Nat := 5000
  periodicVerification : Nat := 6 * 60 * 60 * 1000

/-- `CanScanLocalChanges`: a target of a one-way task has nothing to announce. -/
def canScanLocalChanges (task : TaskDefinition) : Bool :=
  task.mode = ascii "bidirectional" || task.role = ascii "source"

/-- `TaskRuntimeManager::Entry`: a task that is loaded, with what its worker has to know. -/
structure Entry where
  task : TaskDefinition
  enabled : Bool := true
  dirty : Bool := true
  scanning : Bool := false
  generation : UInt64 := 1
  dirtyDeadline : Nat
  periodicDeadline : Nat
  deriving DecidableEq

/-- A call of `PerformScan` that has not finished. -/
structure Scan where
  task : Bytes
  generation : UInt64
  news : Bool := false
  deriving DecidableEq

/-- The entries, and the scans under way with their numbers. -/
structure Manager where
  entries : OrdMap Bytes Entry := OrdMap.empty
  scans : List (Nat × Scan) := []

/-- A section, with the time at which it reads the clock. -/
inductive Action where
  | markDirty (task : Bytes) (now : Nat)
  /-- The end of `LoadTask`, with what it has read in the database. -/
  | load (task : TaskDefinition) (enabled : Bool) (now : Nat)
  /-- `WorkerLoop` starts a scan that is due. -/
  | startDue (scan : Nat) (task : Bytes) (now : Nat)
  /-- The first section of `ScanNow`. -/
  | scanNow (scan : Nat) (task : Bytes)
  /-- The last section of `PerformScan` before it writes to the database. -/
  | finish (scan : Nat) (policyPending : Bool) (now : Nat)
  /-- The section of `RecordFailure`. -/
  | recordFailure (scan : Nat) (now : Nat)
  | pauseTask (task : Bytes)
  | taskDeleting (task : Bytes)
  /-- The last section of `Stop`. -/
  | stop
  deriving DecidableEq

/-- The entry that `LoadTask` makes.  A watcher that does not start makes it dirty, which an entry
that has a watcher already is. -/
def loaded (options : TaskRuntimeOptions) (task : TaskDefinition) (enabled : Bool) (now : Nat) :
    Entry where
  task := task
  enabled := enabled
  dirty := enabled && canScanLocalChanges task
  dirtyDeadline := now + options.debounce
  periodicDeadline := now + options.periodicVerification

/-- The entry after a notification. -/
def Entry.marked (options : TaskRuntimeOptions) (now : Nat) (entry : Entry) : Entry :=
  { entry with
    dirty := true
    generation := entry.generation + 1
    dirtyDeadline := now + options.debounce }

/-- The entry after a scan. -/
def Entry.finished (options : TaskRuntimeOptions) (now : Nat) (remainsDirty : Bool)
    (entry : Entry) : Entry :=
  { entry with
    dirty := remainsDirty
    scanning := false
    periodicDeadline := now + options.periodicVerification
    dirtyDeadline := if remainsDirty then now + options.debounce else entry.dirtyDeadline }

/-- The entry after a scan that has failed. -/
def Entry.failed (options : TaskRuntimeOptions) (now : Nat) (entry : Entry) : Entry :=
  { entry with
    scanning := false
    dirty := true
    dirtyDeadline := now + options.errorRetry }

/-- Whether the worker starts a scan. -/
def Entry.isDue (now : Nat) (entry : Entry) : Bool :=
  entry.enabled && !entry.scanning && canScanLocalChanges entry.task &&
    decide ((if entry.dirty then entry.dirtyDeadline else entry.periodicDeadline) ≤ now)

namespace Manager

/-- The entry of a task is put in the map. -/
def setEntry (m : Manager) (task : Bytes) (entry : Entry) : Manager :=
  { m with entries := m.entries.insert task entry }

/-- The scan with a number. -/
def scanOf (m : Manager) (i : Nat) : Option Scan := (m.scans.find? fun p => p.1 = i).map Prod.snd

/-- Something has been reported: the scans of the task that are under way may have missed it. -/
def report (m : Manager) (task : Bytes) : Manager :=
  { m with
    scans := m.scans.map fun p => if p.2.task = task then (p.1, { p.2 with news := true }) else p }

/-- A scan of the task starts. -/
def start (m : Manager) (i : Nat) (task : Bytes) (entry : Entry) : Manager :=
  { m.setEntry task { entry with scanning := true } with
    scans := m.scans ++ [(i, ⟨task, entry.generation, false⟩)] }

/-- A scan has ended. -/
def drop (m : Manager) (i : Nat) : Manager :=
  { m with scans := m.scans.filter fun p => p.1 ≠ i }

/-- A section.  One that is not possible does nothing. -/
def step (options : TaskRuntimeOptions) (m : Manager) : Action → Manager
  | .markDirty task now =>
    match m.entries.find task with
    | none => m
    | some entry =>
      if entry.enabled then (m.setEntry task (entry.marked options now)).report task else m
  | .load task enabled now =>
    let entry := loaded options task enabled now
    let m := m.setEntry task.taskId entry
    if entry.dirty then m.report task.taskId else m
  | .startDue i task now =>
    match m.entries.find task, m.scanOf i with
    | some entry, none => if entry.isDue now then m.start i task entry else m
    | _, _ => m
  | .scanNow i task =>
    match m.entries.find task, m.scanOf i with
    | some entry, none =>
      if entry.enabled && canScanLocalChanges entry.task && !entry.scanning then
        m.start i task entry
      else m
    | _, _ => m
  | .finish i policyPending now =>
    match m.scanOf i with
    | none => m
    | some scan =>
      match m.entries.find scan.task with
      | none => m
      | some entry =>
        (m.setEntry scan.task (entry.finished options now
          (policyPending || decide (entry.generation ≠ scan.generation)))).drop i
  | .recordFailure i now =>
    match m.scanOf i with
    | none => m
    | some scan =>
      match m.entries.find scan.task with
      | none => m.drop i
      | some entry => (m.setEntry scan.task (entry.failed options now)).drop i
  | .pauseTask task =>
    match m.entries.find task with
    | none => m
    | some entry =>
      if entry.scanning then m
      else m.setEntry task { entry with enabled := false, dirty := false }
  | .taskDeleting task =>
    match m.entries.find task with
    | none => m
    | some entry => if entry.scanning then m else { m with entries := m.entries.erase task }
  | .stop => { m with entries := OrdMap.empty }

/-- The entry does not get a number that a scan under way remembers and is going to find. -/
def Fresh (m : Manager) : Action → Prop
  | .markDirty task _ => ∀ entry ∈ m.entries.find task, entry.enabled = true →
      ∀ p ∈ m.scans, p.2.task = task → p.2.generation ≠ entry.generation + 1
  | .load task enabled _ => ∀ p ∈ m.scans, p.2.task = task.taskId →
      (p.2.news || enabled && canScanLocalChanges task) = true → p.2.generation ≠ 1
  | _ => True

instance (m : Manager) : DecidablePred m.Fresh
  | .markDirty task _ => inferInstanceAs (Decidable (∀ e ∈ m.entries.find task, _))
  | .load _ _ _ => inferInstanceAs (Decidable (∀ p ∈ m.scans, _))
  | .startDue .. | .scanNow .. | .finish .. | .recordFailure .. | .pauseTask .. | .taskDeleting ..
  | .stop => inferInstanceAs (Decidable True)

/-- A scan that has missed something remembers another number. -/
def Heeded (m : Manager) : Prop :=
  ∀ p ∈ m.scans, p.2.news = true → ∀ entry ∈ m.entries.find p.2.task,
    entry.generation ≠ p.2.generation

/-! ## The invariant -/

variable {options : TaskRuntimeOptions} {m : Manager} {task : Bytes}

@[simp] theorem find_setEntry_self (entry : Entry) :
    (m.setEntry task entry).entries.find task = some entry :=
  OrdMap.find_insert_self ..

theorem find_setEntry_of_ne {other : Bytes} (h : other ≠ task) (entry : Entry) :
    (m.setEntry task entry).entries.find other = m.entries.find other :=
  OrdMap.find_insert_of_ne _ _ h

/-- An entry that keeps its number. -/
theorem Heeded.setEntry (h : m.Heeded) {old e : Entry} (hold : m.entries.find task = some old)
    (hgeneration : e.generation = old.generation) : (m.setEntry task e).Heeded := by
  intro p hp hnews found hfound
  by_cases htask : p.2.task = task
  · rw [htask, find_setEntry_self] at hfound
    cases hfound
    rw [hgeneration]
    exact h p hp hnews old (htask ▸ hold)
  · rw [find_setEntry_of_ne htask] at hfound
    exact h p hp hnews found hfound

theorem Heeded.drop (h : m.Heeded) (i : Nat) : (m.drop i).Heeded :=
  fun p hp => h p (List.mem_of_mem_filter hp)

theorem Heeded.start (h : m.Heeded) {entry : Entry} (hentry : m.entries.find task = some entry)
    (i : Nat) : (m.start i task entry).Heeded := by
  intro p hp hnews
  rcases List.mem_append.mp hp with hp | hp
  · exact h.setEntry (e := { entry with scanning := true }) hentry rfl p hp hnews
  · rw [List.mem_singleton.mp hp] at hnews
    cases hnews

/-- An entry gets a new number, and the scans hear of it. -/
theorem Heeded.report {entry : Entry} (h : m.Heeded)
    (hfresh : ∀ p ∈ m.scans, p.2.task = task → p.2.generation ≠ entry.generation) :
    ((m.setEntry task entry).report task).Heeded := by
  intro p hp hnews e he
  obtain ⟨q, hq, rfl⟩ := List.mem_map.mp hp
  by_cases htask : q.2.task = task
  · rw [if_pos htask] at he ⊢
    have he : (m.setEntry task entry).entries.find q.2.task = some e := he
    rw [htask, find_setEntry_self] at he
    cases he
    exact (hfresh q hq htask).symm
  · rw [if_neg htask] at hnews he ⊢
    have he : (m.setEntry task entry).entries.find q.2.task = some e := he
    rw [find_setEntry_of_ne htask] at he
    exact h q hq hnews e he

/-- The section keeps the invariant. -/
theorem heeded_step (h : m.Heeded) {action : Action} (hfresh : m.Fresh action) :
    (m.step options action).Heeded := by
  cases action with
  | markDirty task now =>
    rw [step]
    split
    · exact h
    · rename_i entry hentry
      split
      · rename_i henabled
        exact h.report fun p hp htask => hfresh entry hentry henabled p hp htask
      · exact h
  | load task enabled now =>
    rw [step]
    split
    · rename_i hdirty
      have hdirty : (enabled && canScanLocalChanges task) = true := hdirty
      exact h.report fun p hp htask => hfresh p hp htask (by rw [hdirty, Bool.or_true])
    · intro p hp hnews e he
      by_cases htask : p.2.task = task.taskId
      · rw [htask, find_setEntry_self] at he
        cases he
        exact (hfresh p hp htask (by rw [hnews, Bool.true_or])).symm
      · rw [find_setEntry_of_ne htask] at he
        exact h p hp hnews e he
  | startDue i task now =>
    rw [step]
    split
    · rename_i entry hentry _
      split
      · exact h.start hentry i
      · exact h
    · exact h
  | scanNow i task =>
    rw [step]
    split
    · rename_i entry hentry _
      split
      · exact h.start hentry i
      · exact h
    · exact h
  | finish i policyPending now =>
    rw [step]
    split
    · exact h
    · split
      · exact h
      · rename_i entry hentry
        exact (h.setEntry (e := entry.finished options now _) hentry rfl).drop i
  | recordFailure i now =>
    rw [step]
    split
    · exact h
    · split
      · exact h.drop i
      · rename_i entry hentry
        exact (h.setEntry (e := entry.failed options now) hentry rfl).drop i
  | pauseTask task =>
    rw [step]
    split
    · exact h
    · rename_i entry hentry
      split
      · exact h
      · exact h.setEntry (e := { entry with enabled := false, dirty := false }) hentry rfl
  | taskDeleting task =>
    rw [step]
    split
    · exact h
    · split
      · exact h
      -- loading again replaces the entry, and its number starts again from the first
      · intro p hp hnews e he
        by_cases htask : p.2.task = task
        · rw [htask] at he
          cases (OrdMap.find_erase_self m.entries task).symm.trans he
        · exact h p hp hnews e ((OrdMap.find_erase_of_ne _ htask).symm.trans he)
  | stop =>
    intro p hp hnews e he
    cases he

/-! ## No notification is lost -/

/-- A scan that ends well leaves the entry dirty if it has missed something, and the entry is due
again after the debounce. -/
def Heeds (options : TaskRuntimeOptions) (m : Manager) : Action → Prop
  | .finish i policyPending now => ∀ scan ∈ m.scanOf i, scan.news = true →
      ∀ entry ∈ (m.step options (.finish i policyPending now)).entries.find scan.task,
        entry.dirty = true ∧ (entry.enabled = true → canScanLocalChanges entry.task = true →
          entry.isDue (now + options.debounce) = true)
  | _ => True

instance (options : TaskRuntimeOptions) (m : Manager) : DecidablePred (m.Heeds options)
  | .finish i _ _ => inferInstanceAs (Decidable (∀ scan ∈ m.scanOf i, _))
  | .startDue .. | .scanNow .. | .load .. | .recordFailure .. | .pauseTask .. | .taskDeleting ..
  | .markDirty .. | .stop => inferInstanceAs (Decidable True)

theorem mem_scans_of_scanOf {i : Nat} {scan : Scan} (h : m.scanOf i = some scan) :
    (i, scan) ∈ m.scans := by
  obtain ⟨p, hp, rfl⟩ := Option.map_eq_some_iff.mp h
  have hi : p.1 = i := by simpa using List.find?_some hp
  exact hi ▸ List.mem_of_find?_eq_some hp

theorem heeds_of_heeded (h : m.Heeded) (action : Action) : m.Heeds options action := by
  cases action with
  | finish i policyPending now =>
    intro scan hscan hnews entry hentry
    rw [step, hscan] at hentry
    dsimp only at hentry
    split at hentry
    · rename_i hnone
      cases hnone.symm.trans hentry
    · rename_i old hold
      have hremains : (policyPending || decide (old.generation ≠ scan.generation)) = true := by
        rw [decide_eq_true (h (i, scan) (mem_scans_of_scanOf hscan) hnews old hold), Bool.or_true]
      rw [hremains] at hentry
      obtain rfl : old.finished options now true = entry :=
        Option.some.inj ((find_setEntry_self _).symm.trans hentry)
      refine ⟨rfl, fun henabled hcan => ?_⟩
      simp only [Entry.isDue, Entry.finished] at henabled hcan ⊢
      simp [henabled, hcan]
  | _ => trivial

/-- **No notification is lost.**  In every run of the sections in which no entry gets a number that
a scan under way remembers, a scan that ends well after something was reported leaves the task
dirty. -/
theorem scan_notified (options : TaskRuntimeOptions) (actions : List Action)
    (hfresh : Run.Along (step options) Fresh {} actions) :
    Run.Along (step options) (Heeds options) {} actions :=
  Run.along_of_invariant (fun _ action hfresh h => ⟨heeds_of_heeded h action, heeded_step h hfresh⟩)
    actions ({} : Manager) hfresh fun _ hp => (List.not_mem_nil hp).elim

/-- A task. -/
def documents : TaskDefinition :=
  ⟨ascii "documents", ascii "bidirectional", ascii "peer", ascii "C:/documents"⟩

theorem scan_notified_documents :
    Run.Along (step {}) (Heeds {}) {}
      [.load documents true 0, .startDue 0 documents.taskId 350, .markDirty documents.taskId 360,
        .finish 0 false 400] :=
  scan_notified {} _ (by decide +kernel)

/-- The task is loaded again while its first scan is under way, and the scan leaves it clean. -/
theorem resume_during_scan :
    ¬ Run.Along (step {}) (Heeds {}) {}
      [.load documents true 0, .startDue 0 documents.taskId 350, .load documents true 360,
        .finish 0 false 400] := by
  decide +kernel

end Manager

end TaskRuntime

end VeritasSync
