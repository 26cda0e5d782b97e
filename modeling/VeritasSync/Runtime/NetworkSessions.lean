import Mathlib
import VeritasSync.Common.Path
import VeritasSync.Lib.OrdMap
import VeritasSync.Lib.Run

/-!
# Removing a task's network session

One worker thread of `NetworkSessionManager` owns the sessions.  Other threads ask for a session to
be built (`TaskChanged`) or dropped (`TaskDeleting`) through sets that `mutex_` protects, and
`TaskDeleting` waits until the worker has dropped it.  The worker holds the mutex only between its
long calls: `BuildTask` and `Pump` run without it, and either may fail.

A state here is the manager together with the place the worker has reached; one action is what a
thread does between taking `mutex_` and releasing it, so that a list of actions is an interleaving.
What `BuildTask` and `Pump` come to is part of the action.

## What is here

* `World.step` — every critical section of the manager and of `WorkerLoop`.
* `Undisturbed` — the steps that leave a removal alone, and `SessionInv` — what they keep.
* `deleted_stays_out` — along such steps a deleted task has no session and none is due.
* `due_again` — the step that is left out: a failed task that is put back while its removal waits
  outlives the removal.

Removal is the interesting operation because it promises something to its caller.  When
`TaskDeleting` returns the rows of the task are deleted, and a session that is built after that
would act for a task that does not exist.  There are three places from which one could come: the set
of tasks that are due, the build that is under way, and the retry after a failure; the last is the
one that is overlooked.
-/

set_option autoImplicit false

namespace VeritasSync

namespace Runtime

/-! ## The manager -/

/-- What the manager itself writes in a `TaskSession`; the rest of it is the session's own. -/
structure TaskSession where
  localChanged : Bool := false
  onlineRecorded : Bool := false
  deriving DecidableEq

/-- The members that `mutex_` protects, and the delay after a failure. -/
structure NetworkSessionManager where
  retryDelay : Nat
  started : Bool := false
  stopping : Bool := false
  tasks : OrdMap Bytes TaskSession := OrdMap.empty
  rebuild : Finset Bytes := ∅
  remove : Finset Bytes := ∅
  localChanges : Finset Bytes := ∅
  retryAfter : OrdMap Bytes Nat := OrdMap.empty

namespace NetworkSessionManager

variable (m : NetworkSessionManager) (t : Bytes) (now : Nat)

/-- The locked part of `Start`; `paired` is what it has read from the database. -/
def start (paired : Finset Bytes) : NetworkSessionManager :=
  if m.started then m
  else { m with started := true, stopping := false, rebuild := m.rebuild ∪ paired }

/-- The first locked part of `Stop`. -/
def stop : NetworkSessionManager := if m.started then { m with stopping := true } else m

/-- The second locked part of `Stop`, after the worker has ended. -/
def clear : NetworkSessionManager :=
  { m with
    tasks := OrdMap.empty
    rebuild := ∅
    remove := ∅
    localChanges := ∅
    retryAfter := OrdMap.empty
    started := false }

/-- `TaskChanged`, and with it `ResumeTask`. -/
def taskChanged : NetworkSessionManager :=
  { m with rebuild := insert t m.rebuild, retryAfter := m.retryAfter.erase t }

/-- `TaskDeleting` without a worker. -/
def forget : NetworkSessionManager :=
  { m with
    tasks := m.tasks.erase t
    rebuild := m.rebuild.erase t
    localChanges := m.localChanges.erase t
    retryAfter := m.retryAfter.erase t }

/-- `TaskDeleting` up to its wait. -/
def requestRemoval : NetworkSessionManager :=
  { m with
    remove := insert t m.remove
    rebuild := m.rebuild.erase t
    localChanges := m.localChanges.erase t }

/-- What `TaskDeleting` waits for. -/
def removed : Bool := (m.tasks.find t).isNone && decide (t ∉ m.remove)

/-- `LocalChanged`: the task is noted for the worker. -/
def localChanged : NetworkSessionManager := { m with localChanges := insert t m.localChanges }

/-- No retry time stands against a build now. -/
def due : Bool :=
  match m.retryAfter.find t with
  | none => true
  | some retry => decide (retry ≤ now)

/-- The tasks the worker takes to build. -/
def builds : Finset Bytes := m.rebuild.filter fun t => m.due t now

/-- The first critical section of a round of `WorkerLoop`. -/
def takeRequests : NetworkSessionManager :=
  { m with
    remove := ∅
    rebuild := m.rebuild.filter fun t => ¬ m.due t now
    tasks := m.tasks.eraseAll m.remove
    retryAfter := m.retryAfter.eraseAll m.remove }

/-- What is done with the session `BuildTask` returned, which may be a null pointer. -/
def install (session : Option TaskSession) : NetworkSessionManager :=
  if t ∈ m.remove then m
  else
    { m with
      tasks :=
        match session with
        | some session => m.tasks.insert t session
        | none => m.tasks.erase t
      retryAfter := m.retryAfter.erase t }

/-- What is done when `BuildTask` has thrown. -/
def putBack : NetworkSessionManager :=
  { m with
    retryAfter := m.retryAfter.insert t (now + m.retryDelay)
    rebuild := insert t m.rebuild }

/-- The critical section between building and pumping. -/
def takeLocalChanges : NetworkSessionManager :=
  { m with
    tasks := m.tasks.mapValues fun t session =>
      if t ∈ m.localChanges then { session with localChanged := true } else session
    localChanges := ∅ }

/-- One task of `rebuild_after_pump`. -/
def dropAndPutBack : NetworkSessionManager :=
  putBack { m with tasks := m.tasks.erase t } t now

end NetworkSessionManager

/-! ## The worker and its interleavings -/

/-- Where `WorkerLoop` is, with the local variables that are alive there. -/
inductive Worker
  /-- No thread. -/
  | absent
  /-- Before the first lock of a round. -/
  | top
  /-- In the loop over `builds`; the tasks it has not finished yet. -/
  | building (builds : Finset Bytes)
  /-- In the loop over `tasks_`; the tasks it has not pumped yet, and `rebuild_after_pump`. -/
  | pumping (left : Finset Bytes) (rebuildAfterPump : List Bytes)
  /-- Behind the loop. -/
  | leaving
  deriving DecidableEq

namespace Worker

/-- `rebuild_after_pump`. -/
def rebuildAfterPump : Worker → List Bytes
  | pumping _ rebuildAfterPump => rebuildAfterPump
  | _ => []

/-- The worker is about to build `t`, to pump it or to put it back. -/
def Holds (t : Bytes) : Worker → Prop
  | building builds => t ∈ builds
  | pumping left rebuildAfterPump => t ∈ left ∨ t ∈ rebuildAfterPump
  | _ => False

end Worker

/-- The manager, its worker and the threads inside `TaskDeleting`. -/
structure World where
  manager : NetworkSessionManager
  worker : Worker := .absent
  /-- The tasks of the calls of `TaskDeleting` that wait. -/
  waiting : List Bytes := []
  /-- The tasks for which `TaskDeleting` has returned since the last `TaskChanged`. -/
  deleted : Finset Bytes := ∅

/-- What `BuildTask` came to. -/
inductive BuildOutcome
  | returned (session : Option TaskSession)
  | threw

/-- What `Pump` came to. -/
inductive PumpOutcome
  /-- It returned, with the session as it then is. -/
  | returned (session : TaskSession) (rebuild : Bool)
  | threw

/-- One critical section. -/
inductive Action
  | start (paired : Finset Bytes)
  | stop
  | stopped
  | taskChanged (t : Bytes)
  | taskDeleting (t : Bytes)
  | taskDeleted (t : Bytes)
  | localChanged (t : Bytes)
  | takeRequests (now : Nat)
  | finishBuild (t : Bytes) (outcome : BuildOutcome) (now : Nat)
  | takeLocalChanges
  | pump (t : Bytes) (outcome : PumpOutcome)
  | finishPump (now : Nat)
  | leave

namespace World

variable (w : World) (t : Bytes) (now : Nat)

/-- `TaskDeleting` up to its wait, or as a whole when no worker runs. -/
def taskDeleting : World :=
  if w.manager.started then
    { w with manager := w.manager.requestRemoval t, waiting := t :: w.waiting }
  else { w with manager := w.manager.forget t, deleted := insert t w.deleted }

/-- The wait of a `TaskDeleting` ends and the call returns. -/
def taskDeleted : World :=
  if t ∈ w.waiting ∧ w.manager.removed t then
    { w with waiting := w.waiting.erase t, deleted := insert t w.deleted }
  else w

/-- The first critical section of a round. -/
def takeRequests : World :=
  match w.worker with
  | .top =>
    if w.manager.stopping then { w with worker := .leaving }
    else
      { w with
        manager := w.manager.takeRequests now
        worker := .building (w.manager.builds now) }
  | _ => w

/-- `BuildTask` has ended for one of the tasks; any of them may be next, as the container that the
worker copied them from keeps no order. -/
def finishBuild (outcome : BuildOutcome) : World :=
  match w.worker with
  | .building builds =>
    if t ∈ builds then
      { w with
        manager :=
          match outcome with
          | .returned session => w.manager.install t session
          | .threw => w.manager.putBack t now
        worker := .building (builds.erase t) }
    else w
  | _ => w

/-- The critical section between building and pumping; the loop over `tasks_` begins. -/
def takeLocalChanges : World :=
  match w.worker with
  | .building builds =>
    if builds = ∅ then
      { w with
        manager := w.manager.takeLocalChanges
        worker := .pumping w.manager.tasks.keys [] }
    else w
  | _ => w

/-- `Pump` has ended for one of the tasks. -/
def pump (outcome : PumpOutcome) : World :=
  match w.worker with
  | .pumping left rebuildAfterPump =>
    if t ∈ left then
      match outcome with
      | .returned session rebuild =>
        { w with
          manager := { w.manager with tasks := w.manager.tasks.insert t session }
          worker := .pumping (left.erase t)
            (if rebuild then rebuildAfterPump ++ [t] else rebuildAfterPump) }
      | .threw => { w with worker := .pumping (left.erase t) (rebuildAfterPump ++ [t]) }
    else w
  | _ => w

/-- The last critical section of a round; the timed wait at its end may be over at once. -/
def finishPump : World :=
  match w.worker with
  | .pumping left rebuildAfterPump =>
    if left = ∅ then
      { w with
        manager := rebuildAfterPump.foldl (fun m t => m.dropAndPutBack t now) w.manager
        worker := .top }
    else w
  | _ => w

/-- **One critical section** of any thread; one that cannot run now changes nothing. -/
def step : World → Action → World
  | w, .start paired =>
    if w.manager.started then w
    else { w with manager := w.manager.start paired, worker := .top }
  | w, .stop => { w with manager := w.manager.stop }
  | w, .stopped =>
    if w.manager.started ∧ w.manager.stopping ∧ w.worker = .absent then
      { w with manager := w.manager.clear }
    else w
  | w, .taskChanged t =>
    { w with manager := w.manager.taskChanged t, deleted := w.deleted.erase t }
  | w, .taskDeleting t => w.taskDeleting t
  | w, .taskDeleted t => w.taskDeleted t
  | w, .localChanged t => { w with manager := w.manager.localChanged t }
  | w, .takeRequests now => w.takeRequests now
  | w, .finishBuild t outcome now => w.finishBuild t now outcome
  | w, .takeLocalChanges => w.takeLocalChanges
  | w, .pump t outcome => w.pump t outcome
  | w, .finishPump now => w.finishPump now
  | w, .leave =>
    if w.worker = .leaving then
      { w with manager := { w.manager with tasks := OrdMap.empty }, worker := .absent }
    else w

/-- A manager as it is constructed. -/
def init (retryDelay : Nat) : World := { manager := { retryDelay := retryDelay } }

end World

/-! ## What the critical sections do to one task -/

namespace NetworkSessionManager

variable {m : NetworkSessionManager} {t t' : Bytes} {now : Nat}

theorem install_find_of_ne {session : Option TaskSession} (h : t ≠ t') :
    (m.install t' session).tasks.find t = m.tasks.find t := by
  unfold install
  split
  · rfl
  · cases session with
    | none => exact OrdMap.find_erase_of_ne _ h
    | some session => exact OrdMap.find_insert_of_ne _ session h

@[simp] theorem install_rebuild (session : Option TaskSession) :
    (m.install t session).rebuild = m.rebuild := by
  unfold install
  split <;> rfl

@[simp] theorem install_remove (session : Option TaskSession) :
    (m.install t session).remove = m.remove := by
  unfold install
  split <;> rfl

@[simp] theorem install_started (session : Option TaskSession) :
    (m.install t session).started = m.started := by
  unfold install
  split <;> rfl

theorem takeLocalChanges_find_eq_none (h : m.tasks.find t = none) :
    m.takeLocalChanges.tasks.find t = none := by
  rw [takeLocalChanges, OrdMap.find_mapValues, h, Option.map_none]

theorem takeRequests_find :
    (m.takeRequests now).tasks.find t = if t ∈ m.remove then none else m.tasks.find t :=
  OrdMap.find_eraseAll _ _ _

/-- What the loop over `rebuild_after_pump` leaves as it was. -/
theorem foldl_dropAndPutBack (ts : List Bytes) (m : NetworkSessionManager) :
    let m' := ts.foldl (fun m t => m.dropAndPutBack t now) m
    m'.remove = m.remove ∧ m'.started = m.started ∧
      (t ∉ ts → m'.tasks.find t = m.tasks.find t ∧ (t ∈ m'.rebuild ↔ t ∈ m.rebuild)) := by
  induction ts generalizing m with
  | nil => simp
  | cons t' ts ih =>
    obtain ⟨hremove, hstarted, hrest⟩ := ih (m.dropAndPutBack t' now)
    refine ⟨hremove, hstarted, fun ht => ?_⟩
    have hne : t ≠ t' := List.ne_of_not_mem_cons ht
    obtain ⟨hfind, hrebuild⟩ := hrest (List.not_mem_of_not_mem_cons ht)
    refine ⟨hfind.trans (OrdMap.find_erase_of_ne _ hne), hrebuild.trans ?_⟩
    simp [dropAndPutBack, putBack, hne]

end NetworkSessionManager

/-! ## What a removal needs

While a removal waits, the task must not be due again when the worker gets to it.  `SessionInv` says
what is known of the three sets and of the worker's place, and which steps would break it. -/

/-- The steps that leave the removal of `t` alone: no failed build and no failed pump of `t` is put
back while the removal waits for the worker, and nobody asks for `t` again meanwhile. -/
def Undisturbed (t : Bytes) (w : World) : Action → Prop
  | .start paired => t ∈ paired → t ∉ w.waiting ∧ t ∉ w.deleted
  | .taskChanged t' => t' = t → t ∉ w.waiting
  | .finishBuild t' .threw _ => t' = t → t ∉ w.manager.remove
  | .finishPump _ => t ∈ w.worker.rebuildAfterPump → t ∉ w.manager.remove
  | _ => True

/-- Nothing of `t` is left: no session, no build to come, and the worker is not busy with it. -/
structure Gone (w : World) (t : Bytes) : Prop where
  tasks : w.manager.tasks.find t = none
  rebuild : t ∉ w.manager.rebuild
  worker : ¬ w.worker.Holds t

/-- **The invariant of a removal.**  It says what is known while the caller of a removal waits, and
what is still known when it has returned. -/
structure SessionInv (t : Bytes) (w : World) : Prop where
  /-- The worker runs only between `Start` and `Stop`. -/
  absent : w.manager.started = false → w.worker = .absent
  /-- A removal the worker has not seen yet has a caller that waits, and no build is to come. -/
  pending : t ∈ w.manager.remove → t ∈ w.waiting ∧ t ∉ w.manager.rebuild
  /-- When the worker has seen it, nothing is left, although the caller may not be awake yet. -/
  answered : t ∈ w.waiting → t ∉ w.manager.remove → Gone w t
  deleted : t ∈ w.deleted → Gone w t

namespace SessionInv

variable {t : Bytes} {w w' : World}

theorem init (t : Bytes) (retryDelay : Nat) : SessionInv t (World.init retryDelay) where
  absent := fun _ => rfl
  pending := by simp [World.init]
  answered := by simp [World.init]
  deleted := by simp [World.init]

/-- A step between two removals: it may touch sessions and builds only. -/
theorem congr (h : SessionInv t w) (hwaiting : w'.waiting = w.waiting)
    (hdeleted : w'.deleted = w.deleted) (hremove : w'.manager.remove = w.manager.remove)
    (habsent : w'.manager.started = false → w'.worker = .absent)
    (hpending : t ∈ w.manager.remove → t ∉ w.manager.rebuild → t ∉ w'.manager.rebuild)
    (hgone : Gone w t → Gone w' t) : SessionInv t w' where
  absent := habsent
  pending := by
    rw [hremove, hwaiting]
    exact fun ht => ⟨(h.pending ht).1, hpending ht (h.pending ht).2⟩
  answered := by
    rw [hremove, hwaiting]
    exact fun ht hr => hgone (h.answered ht hr)
  deleted := by
    rw [hdeleted]
    exact fun ht => hgone (h.deleted ht)

theorem started_of_worker (h : SessionInv t w) (hw : w.worker ≠ .absent) :
    w.manager.started = true := by
  cases hs : w.manager.started with
  | true => rfl
  | false => exact absurd (h.absent hs) hw

theorem taskDeleting (h : SessionInv t w) (t' : Bytes) : SessionInv t (w.taskDeleting t') := by
  unfold World.taskDeleting
  split
  · next hs =>
    have hgone : Gone w t →
        Gone { w with manager := w.manager.requestRemoval t', waiting := t' :: w.waiting } t :=
      fun hg => ⟨hg.tasks, fun hr => hg.rebuild (Finset.mem_of_mem_erase hr), hg.worker⟩
    refine ⟨fun hs' => absurd (hs.symm.trans hs') (by simp), fun ht => ?_, fun ht hr => ?_,
      fun ht => hgone (h.deleted ht)⟩
    · rcases Finset.mem_insert.mp ht with rfl | ht
      · exact ⟨List.mem_cons_self, Finset.notMem_erase t _⟩
      · exact ⟨List.mem_cons_of_mem _ (h.pending ht).1,
          fun hr => (h.pending ht).2 (Finset.mem_of_mem_erase hr)⟩
    · have hne : t ≠ t' := fun heq => hr (heq ▸ Finset.mem_insert_self t _)
      exact hgone (h.answered (List.mem_of_ne_of_mem hne ht)
        fun hr' => hr (Finset.mem_insert_of_mem hr'))
  · next hs =>
    have habsent : w.worker = .absent := h.absent (by simpa using hs)
    have hgone : Gone w t →
        Gone { w with manager := w.manager.forget t', deleted := insert t' w.deleted } t :=
      fun hg => ⟨by
        rw [NetworkSessionManager.forget, OrdMap.find_erase, hg.tasks, ite_self],
        fun hr => hg.rebuild (Finset.mem_of_mem_erase hr), hg.worker⟩
    refine ⟨fun _ => habsent, fun ht => ?_, fun ht hr => hgone (h.answered ht hr), fun ht => ?_⟩
    · exact ⟨(h.pending ht).1, fun hr => (h.pending ht).2 (Finset.mem_of_mem_erase hr)⟩
    · rcases Finset.mem_insert.mp ht with rfl | ht
      · refine ⟨OrdMap.find_erase_self _ _, Finset.notMem_erase t _, ?_⟩
        rw [habsent]
        exact id
      · exact hgone (h.deleted ht)

theorem taskDeleted (h : SessionInv t w) (t' : Bytes) : SessionInv t (w.taskDeleted t') := by
  unfold World.taskDeleted
  split
  · next hw =>
    have hnot : t' ∉ w.manager.remove := by
      have := hw.2
      simp only [NetworkSessionManager.removed, Bool.and_eq_true, decide_eq_true_eq] at this
      exact this.2
    refine ⟨h.absent, fun ht => ⟨?_, (h.pending ht).2⟩, fun ht hr => ?_, fun ht => ?_⟩
    · have hne : t ≠ t' := fun heq => hnot (heq ▸ ht)
      exact (List.mem_erase_of_ne hne).mpr (h.pending ht).1
    · obtain ⟨htasks, hrebuild, hworker⟩ := h.answered (List.mem_of_mem_erase ht) hr
      exact ⟨htasks, hrebuild, hworker⟩
    · rcases Finset.mem_insert.mp ht with rfl | ht
      · obtain ⟨htasks, hrebuild, hworker⟩ := h.answered hw.1 hnot
        exact ⟨htasks, hrebuild, hworker⟩
      · obtain ⟨htasks, hrebuild, hworker⟩ := h.deleted ht
        exact ⟨htasks, hrebuild, hworker⟩
  · exact h

theorem takeRequests (h : SessionInv t w) (now : Nat) : SessionInv t (w.takeRequests now) := by
  unfold World.takeRequests
  split
  · next htop =>
    have hs : w.manager.started = true := h.started_of_worker (by simp [htop])
    split
    · refine h.congr rfl rfl rfl (fun hs' => absurd (hs.symm.trans hs') (by simp)) (fun _ hr => hr)
        fun hg => ⟨hg.tasks, hg.rebuild, id⟩
    · -- the removals are taken together with the builds, and no removed task is among these
      have hgone : (t ∈ w.manager.remove ∨ w.manager.tasks.find t = none) →
          t ∉ w.manager.rebuild → Gone { w with
            manager := w.manager.takeRequests now
            worker := .building (w.manager.builds now) } t := by
        refine fun htasks hrebuild => ⟨?_, ?_, ?_⟩
        · rw [NetworkSessionManager.takeRequests_find]
          split
          · rfl
          · next hr => exact htasks.resolve_left hr
        · exact fun hr => hrebuild (Finset.mem_of_mem_filter t hr)
        · exact fun hb => hrebuild (Finset.mem_of_mem_filter t hb)
      refine ⟨fun hs' => absurd (hs.symm.trans hs') (by simp), fun ht => absurd ht (by
        simp [NetworkSessionManager.takeRequests]), fun ht _ => ?_, fun ht => ?_⟩
      · by_cases hr : t ∈ w.manager.remove
        · exact hgone (Or.inl hr) (h.pending hr).2
        · have hg := h.answered ht hr
          exact hgone (Or.inr hg.tasks) hg.rebuild
      · have hg := h.deleted ht
        exact hgone (Or.inr hg.tasks) hg.rebuild
  · exact h

theorem finishBuild (h : SessionInv t w) {t' : Bytes} {outcome : BuildOutcome} {now : Nat}
    (hok : Undisturbed t w (.finishBuild t' outcome now)) :
    SessionInv t (w.finishBuild t' now outcome) := by
  unfold World.finishBuild
  split
  · next builds hbuilding =>
    have hs : w.manager.started = true := h.started_of_worker (by simp [hbuilding])
    split
    · next ht' =>
      have hne : Gone w t → t ≠ t' := fun hg heq => by
        have := hg.worker
        rw [hbuilding] at this
        exact this (show t ∈ builds from heq ▸ ht')
      have hholds : Gone w t → ¬ Worker.Holds t (.building (builds.erase t')) := fun hg hb => by
        have := hg.worker
        rw [hbuilding] at this
        exact this (Finset.mem_of_mem_erase hb)
      cases outcome with
      | returned session =>
        refine h.congr rfl rfl (NetworkSessionManager.install_remove _)
          (fun hs' => ?_) (fun _ hr => ?_) fun hg => ⟨?_, ?_, hholds hg⟩
        · rw [NetworkSessionManager.install_started, hs] at hs'
          cases hs'
        · rwa [NetworkSessionManager.install_rebuild]
        · rw [NetworkSessionManager.install_find_of_ne (hne hg), hg.tasks]
        · rw [NetworkSessionManager.install_rebuild]
          exact hg.rebuild
      | threw =>
        refine h.congr rfl rfl rfl (fun hs' => absurd (hs.symm.trans hs') (by simp))
          (fun hr hrebuild hr' => ?_) fun hg => ⟨hg.tasks, fun hr => ?_, hholds hg⟩
        · rcases Finset.mem_insert.mp hr' with heq | hr'
          · exact hok heq.symm hr
          · exact hrebuild hr'
        · exact hg.rebuild (Finset.mem_of_mem_insert_of_ne hr (hne hg))
    · exact h
  · exact h

theorem takeLocalChanges (h : SessionInv t w) : SessionInv t w.takeLocalChanges := by
  unfold World.takeLocalChanges
  split
  · next builds hbuilding =>
    have hs : w.manager.started = true := h.started_of_worker (by simp [hbuilding])
    split
    · refine h.congr rfl rfl rfl (fun hs' => absurd (hs.symm.trans hs') (by simp)) (fun _ hr => hr)
        fun hg => ⟨NetworkSessionManager.takeLocalChanges_find_eq_none hg.tasks, hg.rebuild, ?_⟩
      rintro (hleft | hback)
      · exact OrdMap.mem_keys.mp hleft hg.tasks
      · exact List.not_mem_nil hback
    · exact h
  · exact h

theorem pump (h : SessionInv t w) (t' : Bytes) (outcome : PumpOutcome) :
    SessionInv t (w.pump t' outcome) := by
  unfold World.pump
  split
  · next left rebuildAfterPump hpumping =>
    have hs : w.manager.started = true := h.started_of_worker (by simp [hpumping])
    split
    · next ht' =>
      have hgone : Gone w t → t ≠ t' ∧ t ∉ left ∧ t ∉ rebuildAfterPump := fun hg => by
        have hholds := hg.worker
        rw [hpumping] at hholds
        have hleft : t ∉ left := fun ht => hholds (Or.inl ht)
        exact ⟨fun heq => hleft (heq ▸ ht'), hleft, fun ht => hholds (Or.inr ht)⟩
      have hholds : ∀ back : List Bytes, (∀ t'' ∈ back, t'' ∈ rebuildAfterPump ∨ t'' = t') →
          Gone w t → ¬ Worker.Holds t (.pumping (left.erase t') back) := fun back hback hg => by
        obtain ⟨hne, hleft, hafter⟩ := hgone hg
        rintro (ht | ht)
        · exact hleft (Finset.mem_of_mem_erase ht)
        · exact (hback t ht).elim hafter hne
      cases outcome with
      | returned session rebuild =>
        refine h.congr rfl rfl rfl (fun hs' => absurd (hs.symm.trans hs') (by simp))
          (fun _ hr => hr) fun hg => ⟨?_, hg.rebuild, hholds _ ?_ hg⟩
        · exact (OrdMap.find_insert_of_ne _ _ (hgone hg).1).trans hg.tasks
        · intro t'' ht
          split at ht
          · exact (List.mem_append.mp ht).imp id List.mem_singleton.mp
          · exact Or.inl ht
      | threw =>
        exact h.congr rfl rfl rfl (fun hs' => absurd (hs.symm.trans hs') (by simp))
          (fun _ hr => hr) fun hg => ⟨hg.tasks, hg.rebuild, hholds _ (fun t'' ht =>
            (List.mem_append.mp ht).imp id List.mem_singleton.mp) hg⟩
    · exact h
  · exact h

theorem finishPump (h : SessionInv t w) {now : Nat} (hok : Undisturbed t w (.finishPump now)) :
    SessionInv t (w.finishPump now) := by
  unfold World.finishPump
  split
  · next left rebuildAfterPump hpumping =>
    have hs : w.manager.started = true := h.started_of_worker (by simp [hpumping])
    split
    · have hok : t ∈ rebuildAfterPump → t ∉ w.manager.remove := by
        simpa [Undisturbed, hpumping, Worker.rebuildAfterPump] using hok
      obtain ⟨hremove, hstarted, hrest⟩ := @NetworkSessionManager.foldl_dropAndPutBack
        t now rebuildAfterPump w.manager
      refine h.congr rfl rfl hremove
        (fun hs' => absurd ((hstarted.trans hs).symm.trans hs') (by simp))
        (fun hr hrebuild => ?_) fun hg => ?_
      · exact mt (hrest fun ht => hok ht hr).2.mp hrebuild
      · have hafter : t ∉ rebuildAfterPump := fun ht => by
          have hholds := hg.worker
          rw [hpumping] at hholds
          exact hholds (Or.inr ht)
        exact ⟨(hrest hafter).1.trans hg.tasks, mt (hrest hafter).2.mp hg.rebuild, id⟩
    · exact h
  · exact h

theorem start (h : SessionInv t w) {paired : Finset Bytes}
    (hok : Undisturbed t w (.start paired)) : SessionInv t (w.step (.start paired)) := by
  rw [World.step]
  split
  · exact h
  · next hs =>
    have hmanager : w.manager.start paired =
        { w.manager with
          started := true, stopping := false, rebuild := w.manager.rebuild ∪ paired } := if_neg hs
    have habsent : w.worker = .absent := h.absent (by simpa using hs)
    rw [hmanager]
    have hgone : t ∉ paired → Gone w t → Gone { w with
        manager := { w.manager with
          started := true, stopping := false, rebuild := w.manager.rebuild ∪ paired }
        worker := .top } t := fun hp hg =>
      ⟨hg.tasks, fun hr => (Finset.mem_union.mp hr).elim hg.rebuild hp, id⟩
    refine ⟨fun hs' => absurd hs' (by simp), fun ht => ⟨(h.pending ht).1, fun hr => ?_⟩,
      fun ht hr => hgone (fun hp => (hok hp).1 ht) (h.answered ht hr),
      fun ht => hgone (fun hp => (hok hp).2 ht) (h.deleted ht)⟩
    exact (Finset.mem_union.mp hr).elim (h.pending ht).2 fun hp => (hok hp).1 (h.pending ht).1

theorem taskChanged (h : SessionInv t w) {t' : Bytes} (hok : Undisturbed t w (.taskChanged t')) :
    SessionInv t (w.step (.taskChanged t')) := by
  by_cases heq : t' = t
  · subst heq
    exact ⟨h.absent, fun ht => absurd (h.pending ht).1 (hok rfl), fun ht => absurd ht (hok rfl),
      fun ht => absurd ht (Finset.notMem_erase t' _)⟩
  · have hgone : Gone w t → Gone (w.step (.taskChanged t')) t := fun hg =>
      ⟨hg.tasks, fun hr => hg.rebuild (Finset.mem_of_mem_insert_of_ne hr (Ne.symm heq)), hg.worker⟩
    refine ⟨h.absent, fun ht => ⟨(h.pending ht).1, fun hr => ?_⟩,
      fun ht hr => hgone (h.answered ht hr),
      fun ht => hgone (h.deleted (Finset.mem_of_mem_erase ht))⟩
    exact (h.pending ht).2 (Finset.mem_of_mem_insert_of_ne hr (Ne.symm heq))

theorem stop (h : SessionInv t w) : SessionInv t (w.step .stop) := by
  rw [World.step, NetworkSessionManager.stop]
  split
  · exact h.congr rfl rfl rfl h.absent (fun _ hr => hr) fun hg => ⟨hg.tasks, hg.rebuild, hg.worker⟩
  · exact h

theorem stopped (h : SessionInv t w) : SessionInv t (w.step .stopped) := by
  rw [World.step]
  split
  · next hs =>
    have hgone : Gone { w with manager := w.manager.clear } t :=
      ⟨rfl, Finset.notMem_empty t, by rw [hs.2.2]; exact id⟩
    exact ⟨fun _ => hs.2.2, fun ht => absurd ht (Finset.notMem_empty t), fun _ _ => hgone,
      fun _ => hgone⟩
  · exact h

theorem leave (h : SessionInv t w) : SessionInv t (w.step .leave) := by
  rw [World.step]
  split
  · exact h.congr rfl rfl rfl (fun _ => rfl) (fun _ hr => hr) fun hg => ⟨rfl, hg.rebuild, id⟩
  · exact h

/-- **One critical section keeps the invariant.** -/
theorem step (h : SessionInv t w) {a : Action} (hok : Undisturbed t w a) :
    SessionInv t (w.step a) := by
  cases a with
  | start paired => exact h.start hok
  | stop => exact h.stop
  | stopped => exact h.stopped
  | taskChanged t' => exact h.taskChanged hok
  | taskDeleting t' => exact h.taskDeleting t'
  | taskDeleted t' => exact h.taskDeleted t'
  | localChanged t' =>
    exact h.congr rfl rfl rfl h.absent (fun _ hr => hr) fun hg => ⟨hg.tasks, hg.rebuild, hg.worker⟩
  | takeRequests now => exact h.takeRequests now
  | finishBuild t' outcome now => exact h.finishBuild hok
  | takeLocalChanges => exact h.takeLocalChanges
  | pump t' outcome => exact h.pump t' outcome
  | finishPump now => exact h.finishPump hok
  | leave => exact h.leave

end SessionInv

/-! ## Over a whole run -/

instance (t : Bytes) (w : World) : (a : Action) → Decidable (Undisturbed t w a)
  | .start paired => inferInstanceAs (Decidable (t ∈ paired → t ∉ w.waiting ∧ t ∉ w.deleted))
  | .taskChanged t' => inferInstanceAs (Decidable (t' = t → t ∉ w.waiting))
  | .finishBuild t' .threw _ => inferInstanceAs (Decidable (t' = t → t ∉ w.manager.remove))
  | .finishPump _ =>
    inferInstanceAs (Decidable (t ∈ w.worker.rebuildAfterPump → t ∉ w.manager.remove))
  | .stop => .isTrue trivial
  | .stopped => .isTrue trivial
  | .taskDeleting _ => .isTrue trivial
  | .taskDeleted _ => .isTrue trivial
  | .localChanged _ => .isTrue trivial
  | .takeRequests _ => .isTrue trivial
  | .finishBuild _ (.returned _) _ => .isTrue trivial
  | .takeLocalChanges => .isTrue trivial
  | .pump _ _ => .isTrue trivial
  | .leave => .isTrue trivial

/-- **A deleted task stays out**: after `TaskDeleting` has returned, and until the next
`TaskChanged`, the task has no session and none is to be built, in every interleaving whose steps
leave the removal alone. -/
theorem deleted_stays_out (retryDelay : Nat) (t : Bytes) (as : List Action)
    (hok : Run.Along World.step (Undisturbed t) (World.init retryDelay) as)
    (hdeleted : t ∈ (Run.run World.step (World.init retryDelay) as).deleted) :
    (Run.run World.step (World.init retryDelay) as).manager.tasks.find t = none ∧
      t ∉ (Run.run World.step (World.init retryDelay) as).manager.rebuild := by
  have hinv := Run.run_invariant (I := SessionInv t) (fun _ _ hok h => h.step hok) as _ hok
    (SessionInv.init t retryDelay)
  exact ⟨(hinv.deleted hdeleted).tasks, (hinv.deleted hdeleted).rebuild⟩

/-- A task with one session is deleted while the worker builds another one. -/
def deletion : List Action :=
  [.start {[97], [98]}, .takeRequests 0, .finishBuild [97] (.returned (some {})) 0,
    .taskDeleting [97], .finishBuild [98] (.returned (some {})) 0, .takeLocalChanges,
    .pump [97] (.returned {} false), .pump [98] (.returned {} false), .finishPump 1,
    .takeRequests 2, .taskDeleted [97]]

theorem deleted_stays_out_deletion :
    (Run.run World.step (World.init 5000) deletion).manager.tasks.find [97] = none ∧
      [97] ∉ (Run.run World.step (World.init 5000) deletion).manager.rebuild :=
  deleted_stays_out 5000 [97] deletion (by decide +kernel) (by decide +kernel)

/-! ## The step that is left out -/

/-- **A task put back while its removal waits outlives it.**  The worker drops the session and
forgets the removal, the caller returns, and the build is still due. -/
theorem due_again {w : World} {t : Bytes} {now retry : Nat} (htop : w.worker = .top)
    (hstopping : w.manager.stopping = false) (hwaiting : t ∈ w.waiting)
    (hremove : t ∈ w.manager.remove) (hrebuild : t ∈ w.manager.rebuild)
    (hretry : w.manager.retryAfter.find t = some retry) (hnow : now < retry) :
    let w' := (w.takeRequests now).taskDeleted t
    t ∈ w'.deleted ∧ t ∈ w'.manager.rebuild := by
  have hdue : w.manager.due t now = false := by
    simp only [NetworkSessionManager.due, hretry, decide_eq_false_iff_not]
    omega
  have htake : w.takeRequests now =
      { w with
        manager := w.manager.takeRequests now
        worker := .building (w.manager.builds now) } := by
    simp [World.takeRequests, htop, hstopping]
  have hremoved : (w.manager.takeRequests now).removed t = true := by
    rw [NetworkSessionManager.removed, NetworkSessionManager.takeRequests_find, if_pos hremove]
    simp [NetworkSessionManager.takeRequests]
  have hdeleted : (w.takeRequests now).taskDeleted t =
      { w.takeRequests now with
        waiting := w.waiting.erase t
        deleted := insert t w.deleted } := by
    rw [htake]
    exact if_pos ⟨hwaiting, hremoved⟩
  refine ⟨?_, ?_⟩
  · rw [hdeleted]
    exact Finset.mem_insert_self t _
  · rw [hdeleted, htake]
    exact Finset.mem_filter.mpr ⟨hrebuild, by simp [hdue]⟩

/-- The task's build fails while its removal waits. -/
def failedBuild : List Action :=
  [.start {[97]}, .takeRequests 0, .taskDeleting [97], .finishBuild [97] .threw 10,
    .takeLocalChanges, .finishPump 10, .takeRequests 11, .taskDeleted [97]]

/-- The build that is still due comes to a session. -/
def revival : List Action :=
  [.takeLocalChanges, .finishPump 12, .takeRequests 6000,
    .finishBuild [97] (.returned (some {})) 6001]

theorem failed_build_revives :
    ¬ ([97] ∈ (Run.run World.step (World.init 5000) failedBuild).deleted →
      (Run.run World.step (World.init 5000) failedBuild).manager.tasks.find [97] = none ∧
        [97] ∉ (Run.run World.step (World.init 5000) failedBuild).manager.rebuild) ∧
    ¬ ([97] ∈ (Run.run World.step (World.init 5000) (failedBuild ++ revival)).deleted →
      (Run.run World.step (World.init 5000) (failedBuild ++ revival)).manager.tasks.find [97] =
        none) := by
  decide +kernel

end Runtime

end VeritasSync
