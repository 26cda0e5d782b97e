import VeritasSync.Common.Protocol
import VeritasSync.Lib.Exec
import VeritasSync.Lib.Run

/-!
# The send scheduler

`SendScheduler` has four queues, one for each priority, and one counter for the bytes in all of
them.  `Enqueue` subtracts the counter from the budget and `Next` subtracts a frame from the
counter, both in `std::size_t`: neither may underflow, and only the agreement of the counter with
the queues prevents it.

What a scheduler owes its callers is a matter of histories: what has been accepted comes out once,
or is still inside; the frames of one priority come out in order; and when a frame comes out, none
of a higher priority is waiting.  So the state of the theorem is the scheduler with two lists, one
of what went in and one of what came out, and the induction goes over the calls.

## What is here

* `SendScheduler` — the queues, by priority, under a budget in bytes.
* `SendScheduler.enqueueExec` — `Enqueue`, write by write.
* `History` — a scheduler together with the frames it has accepted and returned.
* `send_scheduler_runs` — **over every sequence of calls**: the counter is right and within the
  budget, what was accepted has been returned once or is still queued, each priority is a queue,
  and no frame overtakes one of a higher priority.
-/

set_option autoImplicit false

namespace VeritasSync

namespace Transport

/-! ## The scheduler

Four queues in an array, indexed by the priority.  `Next` looks at them from the first to the last
and takes from the first that has something. -/

/-- `transport::SendPriority`, from the one that goes first to the one that waits longest. -/
inductive SendPriority where
  | control
  | manifest
  | smallFile
  | bulk
  deriving DecidableEq

/-- `transport::PendingSend`: a frame with its channel and its priority. -/
structure PendingSend (φ : Type) where
  channel : Channel
  priority : SendPriority
  wire : φ
  deriving DecidableEq

/-- `transport::SendScheduler`: the frames that wait, by priority, and their size. -/
structure SendScheduler (φ : Type) where
  queues : SendPriority → List (PendingSend φ)
  maxPendingBytes : Nat
  resumeBelowBytes : Nat
  pendingBytes : Nat

namespace SendScheduler

variable {φ : Type} (size : φ → Nat)

/-- The constructor.  Sending has to resume at less than the budget. -/
def create (maxPendingBytes resumeBelowBytes : Nat) : Except Error (SendScheduler φ) :=
  if maxPendingBytes = 0 ∨ resumeBelowBytes ≥ maxPendingBytes then
    .error (.invalidArgument "send scheduler byte limits are invalid")
  else .ok ⟨fun _ => [], maxPendingBytes, resumeBelowBytes, 0⟩

/-- `SendScheduler::Enqueue`: the frame joins the queue of its priority, if the budget allows it. -/
def enqueue (s : SendScheduler φ) (pending : PendingSend φ) : Except Error (SendScheduler φ) :=
  if size pending.wire = 0 then .error (.invalidArgument "cannot schedule an empty frame")
  else if size pending.wire > s.maxPendingBytes - s.pendingBytes then
    .error (.lengthError "per-peer send budget exceeded")
  else
    .ok { s with
      pendingBytes := s.pendingBytes + size pending.wire
      queues := Function.update s.queues pending.priority
        (s.queues pending.priority ++ [pending]) }

/-- `SendScheduler::CanResume`: the transport has little enough buffered. -/
def canResume (s : SendScheduler φ) (bufferedBytes : Nat) : Bool :=
  bufferedBytes < s.resumeBelowBytes

/-- The loop of `Next` over the queues. -/
def takeFirst (s : SendScheduler φ) :
    List SendPriority → Option (PendingSend φ) × SendScheduler φ
  | [] => (none, s)
  | priority :: rest =>
    match s.queues priority with
    | [] => takeFirst s rest
    | pending :: queue =>
      (some pending,
        { s with
          queues := Function.update s.queues priority queue
          pendingBytes := s.pendingBytes - size pending.wire })

/-- `SendScheduler::Next`: the oldest frame of the highest priority that has one. -/
def next (s : SendScheduler φ) (bufferedBytes : Nat) :
    Option (PendingSend φ) × SendScheduler φ :=
  if !s.canResume bufferedBytes then (none, s)
  else s.takeFirst size [.control, .manifest, .smallFile, .bulk]

/-- Nothing is waiting: the queues are empty and the counter is zero. -/
structure Idle (s : SendScheduler φ) : Prop where
  queues : ∀ priority, s.queues priority = []
  pendingBytes : s.pendingBytes = 0

variable {size} {s : SendScheduler φ}

theorem Idle.next (h : s.Idle) (bufferedBytes : Nat) : s.next size bufferedBytes = (none, s) := by
  rw [SendScheduler.next]
  split
  · rfl
  · simp only [takeFirst, h.queues]

/-- The loop finds the only frame there is. -/
theorem takeFirst_single {pending : PendingSend φ} {l : List SendPriority}
    (hmem : pending.priority ∈ l)
    (hqueues : s.queues = Function.update (fun _ => []) pending.priority [pending]) :
    s.takeFirst size l =
      (some pending,
        { s with
          queues := fun _ => []
          pendingBytes := s.pendingBytes - size pending.wire }) := by
  induction l with
  | nil => cases hmem
  | cons priority l ih =>
    by_cases heq : priority = pending.priority
    · have hqueue : s.queues priority = [pending] := by
        rw [hqueues, heq, Function.update_self]
      have hempty : Function.update s.queues priority [] = fun _ => [] := by
        rw [hqueues, heq, Function.update_idem, Function.update_eq_self_iff]
      simp only [takeFirst, hqueue, hempty]
    · have hqueue : s.queues priority = [] := by
        rw [hqueues, Function.update_of_ne heq]
      simp only [takeFirst, hqueue]
      exact ih ((List.mem_cons.mp hmem).resolve_left fun h => heq h.symm)

/-- A frame goes in and comes out. -/
theorem Idle.enqueue_next (h : s.Idle) {pending : PendingSend φ} {bufferedBytes : Nat}
    (hresume : s.canResume bufferedBytes = true) (hne : size pending.wire ≠ 0)
    (hfits : size pending.wire ≤ s.maxPendingBytes) :
    ∃ s', s.enqueue size pending = .ok s' ∧ s'.next size bufferedBytes = (some pending, s) := by
  have hroom : ¬ size pending.wire > s.maxPendingBytes - s.pendingBytes := by
    rw [h.pendingBytes]
    omega
  have hqueues : s.queues = fun _ => [] := funext h.queues
  refine ⟨_, by rw [enqueue, if_neg hne, if_neg hroom], ?_⟩
  rw [SendScheduler.next, canResume]
  dsimp only
  rw [canResume] at hresume
  rw [hresume, Bool.not_true, if_neg Bool.false_ne_true]
  have hpriority : pending.priority ∈
      [SendPriority.control, .manifest, .smallFile, .bulk] := by
    cases pending.priority <;> decide
  rw [takeFirst_single hpriority]
  · simp only [Nat.add_sub_cancel, ← hqueues]
  · simp only [hqueues, List.nil_append]

/-! ## `Enqueue`, write by write -/

/-- `SendScheduler::Enqueue`: two checks, and then two writes. -/
def enqueueExec (size : φ → Nat) (pending : PendingSend φ) : Exec (SendScheduler φ) Error Unit := do
  Exec.check fun _ =>
    if size pending.wire = 0 then .error (.invalidArgument "cannot schedule an empty frame")
    else .ok ()
  Exec.check fun s =>
    if size pending.wire > s.maxPendingBytes - s.pendingBytes then
      .error (.lengthError "per-peer send budget exceeded")
    else .ok ()
  Exec.update fun s => { s with pendingBytes := s.pendingBytes + size pending.wire }
  Exec.update fun s =>
    { s with
      queues := Function.update s.queues pending.priority
        (s.queues pending.priority ++ [pending]) }

/-- Both checks come before the first write. -/
theorem enqueueExec_eq (pending : PendingSend φ) (s : SendScheduler φ) :
    enqueueExec size pending s =
      match s.enqueue size pending with
      | .ok s' => (.ok (), s')
      | .error e => (.error e, s) := by
  rw [enqueue, enqueueExec, Exec.bind_apply, Exec.check_apply]
  by_cases hempty : size pending.wire = 0
  · rw [if_pos hempty, if_pos hempty]
  · rw [if_neg hempty, if_neg hempty]
    dsimp only
    rw [Exec.bind_apply, Exec.check_apply]
    by_cases hroom : size pending.wire > s.maxPendingBytes - s.pendingBytes
    · rw [if_pos hroom, if_pos hroom]
    · rw [if_neg hroom, if_neg hroom]
      rfl

theorem enqueue_eq_ok {pending : PendingSend φ} {s' : SendScheduler φ}
    (h : s.enqueue size pending = .ok s') :
    size pending.wire ≤ s.maxPendingBytes - s.pendingBytes ∧
      s' = { s with
        pendingBytes := s.pendingBytes + size pending.wire
        queues := Function.update s.queues pending.priority
          (s.queues pending.priority ++ [pending]) } := by
  rw [enqueue] at h
  split at h
  · cases h
  split at h
  · cases h
  · rename_i hroom
    cases h
    exact ⟨not_lt.mp hroom, rfl⟩

/-! ## What the queues hold

The counter against the queues, one operation at a time. -/

/-- The size of the frames of a queue. -/
def bytesOf (size : φ → Nat) (queue : List (PendingSend φ)) : Nat :=
  (queue.map fun pending => size pending.wire).sum

/-- All queued frames, in the order of the queues. -/
def queued (s : SendScheduler φ) : List (PendingSend φ) :=
  s.queues .control ++ s.queues .manifest ++ s.queues .smallFile ++ s.queues .bulk

/-- The place of a priority among the queues. -/
def rank : SendPriority → Nat
  | .control => 0
  | .manifest => 1
  | .smallFile => 2
  | .bulk => 3

/-- The counter counts what is queued, within the budget, and every frame is in the queue of its
priority. -/
structure Counted (size : φ → Nat) (s : SendScheduler φ) : Prop where
  pendingBytes : s.pendingBytes = bytesOf size s.queued
  le_max : s.pendingBytes ≤ s.maxPendingBytes
  priority : ∀ priority, ∀ pending ∈ s.queues priority, pending.priority = priority

theorem bytesOf_append (l l' : List (PendingSend φ)) :
    bytesOf size (l ++ l') = bytesOf size l + bytesOf size l' := by
  rw [bytesOf, List.map_append, List.sum_append, bytesOf, bytesOf]

/-- What a change of one queue changes in the size of all. -/
theorem bytesOf_queued_update (size : φ → Nat) (s : SendScheduler φ) (priority : SendPriority)
    (queue : List (PendingSend φ)) (n : Nat) :
    bytesOf size { s with queues := Function.update s.queues priority queue
                          pendingBytes := n }.queued + bytesOf size (s.queues priority) =
      bytesOf size s.queued + bytesOf size queue := by
  cases priority <;> simp only [queued, bytesOf_append, Function.update_self, ne_eq, reduceCtorEq,
    not_false_eq_true, Function.update_of_ne] <;> omega

theorem Counted.enqueue (h : s.Counted size) {pending : PendingSend φ} {s' : SendScheduler φ}
    (hrun : s.enqueue size pending = .ok s') : s'.Counted size := by
  obtain ⟨hroom, rfl⟩ := enqueue_eq_ok hrun
  have hle := h.le_max
  refine ⟨?_, ?_, fun priority other hother => ?_⟩
  · have hupdate := bytesOf_queued_update size s pending.priority
      (s.queues pending.priority ++ [pending]) (s.pendingBytes + size pending.wire)
    have hsingle : bytesOf size [pending] = size pending.wire := Nat.add_zero _
    rw [bytesOf_append, hsingle, ← h.pendingBytes] at hupdate
    dsimp only
    omega
  · show s.pendingBytes + size pending.wire ≤ s.maxPendingBytes
    omega
  · dsimp only at hother
    rcases eq_or_ne priority pending.priority with rfl | hne
    · rw [Function.update_self, List.mem_append, List.mem_singleton] at hother
      rcases hother with hother | rfl
      · exact h.priority _ _ hother
      · rfl
    · rw [Function.update_of_ne hne] at hother
      exact h.priority _ _ hother

/-- What the loop of `Next` has done. -/
theorem takeFirst_cases (l : List SendPriority) :
    (s.takeFirst size l = (none, s) ∧ ∀ priority ∈ l, s.queues priority = []) ∨
      ∃ before priority after pending queue, l = before ++ priority :: after ∧
        (∀ earlier ∈ before, s.queues earlier = []) ∧ s.queues priority = pending :: queue ∧
        s.takeFirst size l =
          (some pending,
            { s with
              queues := Function.update s.queues priority queue
              pendingBytes := s.pendingBytes - size pending.wire }) := by
  induction l with
  | nil => exact .inl ⟨rfl, fun _ h => absurd h List.not_mem_nil⟩
  | cons first rest ih =>
    cases hqueue : s.queues first with
    | nil =>
      have hskip : s.takeFirst size (first :: rest) = s.takeFirst size rest := by
        simp only [takeFirst, hqueue]
      rw [hskip]
      rcases ih with ⟨hnone, hall⟩ | ⟨before, priority, after, pending, queue, rfl, hbefore, hsome⟩
      · exact .inl ⟨hnone, List.forall_mem_cons.mpr ⟨hqueue, hall⟩⟩
      · exact .inr ⟨first :: before, priority, after, pending, queue, rfl,
          List.forall_mem_cons.mpr ⟨hqueue, hbefore⟩, hsome⟩
    | cons pending queue =>
      refine .inr ⟨[], first, rest, pending, queue, rfl, fun _ h => absurd h List.not_mem_nil,
        hqueue, ?_⟩
      simp only [takeFirst, hqueue]

/-- **What `Next` returns**: the first frame of the first queue that is not empty. -/
theorem Counted.next_eq_some (h : s.Counted size) {bufferedBytes : Nat} {pending : PendingSend φ}
    {s' : SendScheduler φ} (hrun : s.next size bufferedBytes = (some pending, s')) :
    ∃ queue, s.queues pending.priority = pending :: queue ∧
      (∀ priority, rank priority < rank pending.priority → s.queues priority = []) ∧
      s' = { s with
        queues := Function.update s.queues pending.priority queue
        pendingBytes := s.pendingBytes - size pending.wire } := by
  rw [SendScheduler.next] at hrun
  split at hrun
  · cases hrun
  rcases takeFirst_cases [.control, .manifest, .smallFile, .bulk] with
    ⟨hnone, -⟩ | ⟨before, priority, after, first, queue, hlist, hbefore, hqueue, hsome⟩
  · rw [hnone] at hrun
    cases hrun
  · rw [hsome] at hrun
    cases hrun
    obtain rfl : pending.priority = priority :=
      h.priority priority pending (hqueue ▸ List.mem_cons_self)
    refine ⟨queue, hqueue, fun earlier hrank => hbefore earlier ?_, rfl⟩
    -- the queues stand in the order of their ranks
    have hsorted : ([.control, .manifest, .smallFile, .bulk] : List SendPriority).Pairwise
        fun a b => rank a < rank b := by decide
    have hall : earlier ∈ ([.control, .manifest, .smallFile, .bulk] : List SendPriority) := by
      cases earlier <;> decide
    rw [hlist] at hsorted hall
    rcases List.mem_append.mp hall with hmem | hmem
    · exact hmem
    rcases List.mem_cons.mp hmem with rfl | hmem
    · omega
    · have hlater := (List.pairwise_cons.mp (List.pairwise_append.mp hsorted).2.1).1 earlier hmem
      omega

theorem next_eq_none {bufferedBytes : Nat} {s' : SendScheduler φ}
    (hrun : s.next size bufferedBytes = (none, s')) : s' = s := by
  rw [SendScheduler.next] at hrun
  split at hrun
  · cases hrun
    rfl
  rcases takeFirst_cases [.control, .manifest, .smallFile, .bulk] with
    ⟨hnone, -⟩ | ⟨before, priority, after, first, queue, -, -, -, hsome⟩
  · rw [hnone] at hrun
    cases hrun
    rfl
  · rw [hsome] at hrun
    cases hrun

theorem maxPendingBytes_next (size : φ → Nat) (s : SendScheduler φ) (bufferedBytes : Nat) :
    (s.next size bufferedBytes).2.maxPendingBytes = s.maxPendingBytes := by
  rw [SendScheduler.next]
  split
  · rfl
  rcases takeFirst_cases [.control, .manifest, .smallFile, .bulk] with
    ⟨hnone, -⟩ | ⟨_, _, _, _, _, -, -, -, hsome⟩
  · rw [hnone]
  · rw [hsome]

/-- The counter covers the frame that leaves. -/
theorem Counted.size_le (h : s.Counted size) {pending : PendingSend φ}
    {queue : List (PendingSend φ)} (hqueue : s.queues pending.priority = pending :: queue) :
    size pending.wire ≤ s.pendingBytes := by
  have hmem : pending ∈ s.queued := by
    have hhead : pending ∈ s.queues pending.priority := hqueue ▸ List.mem_cons_self
    simp only [queued, List.mem_append]
    cases hpriority : pending.priority <;> rw [hpriority] at hhead <;> tauto
  rw [h.pendingBytes]
  exact List.le_sum_of_mem (List.mem_map_of_mem hmem)

theorem Counted.next (h : s.Counted size) (bufferedBytes : Nat) :
    (s.next size bufferedBytes).2.Counted size := by
  rcases hrun : s.next size bufferedBytes with ⟨_ | pending, s'⟩
  · rw [next_eq_none hrun]
    exact h
  · obtain ⟨queue, hqueue, -, rfl⟩ := h.next_eq_some hrun
    have hsize := h.size_le hqueue
    have hle := h.le_max
    refine ⟨?_, ?_, fun priority other hother => ?_⟩
    · have hupdate := bytesOf_queued_update size s pending.priority queue
        (s.pendingBytes - size pending.wire)
      have hcons : bytesOf size (pending :: queue) = size pending.wire + bytesOf size queue :=
        List.sum_cons
      rw [hqueue, hcons, ← h.pendingBytes] at hupdate
      dsimp only
      omega
    · show s.pendingBytes - size pending.wire ≤ s.maxPendingBytes
      omega
    · dsimp only at hother
      rcases eq_or_ne priority pending.priority with rfl | hne
      · rw [Function.update_self] at hother
        exact h.priority _ _ (hqueue ▸ List.mem_cons_of_mem _ hother)
      · rw [Function.update_of_ne hne] at hother
        exact h.priority _ _ hother

/-! ## Runs -/

/-- What the owner of a scheduler calls. -/
inductive Call (φ : Type) where
  | enqueue (pending : PendingSend φ)
  | next (bufferedBytes : Nat)

end SendScheduler

/-- A scheduler, with the frames it has accepted and those it has returned. -/
structure History (φ : Type) where
  scheduler : SendScheduler φ
  accepted : List (PendingSend φ)
  returned : List (PendingSend φ)

namespace History

variable {φ : Type} (size : φ → Nat)

/-- One call.  An exception leaves everything as it was. -/
def step (h : History φ) : SendScheduler.Call φ → History φ
  | .enqueue pending =>
    match SendScheduler.enqueueExec size pending h.scheduler with
    | (.ok _, s) => { h with scheduler := s, accepted := h.accepted ++ [pending] }
    | (.error _, s) => { h with scheduler := s }
  | .next bufferedBytes =>
    match h.scheduler.next size bufferedBytes with
    | (some pending, s) => { h with scheduler := s, returned := h.returned ++ [pending] }
    | (none, s) => { h with scheduler := s }

/-- The frames of one priority. -/
def ofPriority (priority : SendPriority) (l : List (PendingSend φ)) : List (PendingSend φ) :=
  l.filter fun pending => pending.priority = priority

/-- The counter is right, and in each priority what was accepted is what was returned, followed by
what is queued. -/
structure Conserved (h : History φ) : Prop where
  counted : h.scheduler.Counted size
  split : ∀ priority, ofPriority priority h.accepted =
    ofPriority priority h.returned ++ h.scheduler.queues priority

variable {size} {h : History φ}

theorem ofPriority_append_singleton (priority : SendPriority) (l : List (PendingSend φ))
    (pending : PendingSend φ) : ofPriority priority (l ++ [pending]) =
      ofPriority priority l ++ if pending.priority = priority then [pending] else [] := by
  by_cases h : pending.priority = priority <;> simp [ofPriority, h]

/-- A frame that is accepted joins the end of its queue. -/
theorem Conserved.enqueue (hc : h.Conserved size) (pending : PendingSend φ) :
    (h.step size (.enqueue pending)).Conserved size := by
  rw [step, SendScheduler.enqueueExec_eq]
  cases hrun : h.scheduler.enqueue size pending with
  | error e => exact hc
  | ok s' =>
    refine ⟨hc.counted.enqueue hrun, fun priority => ?_⟩
    obtain ⟨-, rfl⟩ := SendScheduler.enqueue_eq_ok hrun
    dsimp only
    rw [ofPriority_append_singleton, hc.split priority, List.append_assoc]
    congr 1
    rcases eq_or_ne priority pending.priority with rfl | hne
    · rw [if_pos rfl, Function.update_self]
    · rw [if_neg hne.symm, Function.update_of_ne hne, List.append_nil]

/-- A frame that is returned was the first of its queue. -/
theorem Conserved.next (hc : h.Conserved size) (bufferedBytes : Nat) :
    (h.step size (.next bufferedBytes)).Conserved size := by
  have hcounted := hc.counted.next bufferedBytes
  rw [step]
  rcases hrun : h.scheduler.next size bufferedBytes with ⟨_ | pending, s'⟩
  · rw [hrun] at hcounted
    refine ⟨hcounted, fun priority => ?_⟩
    rw [SendScheduler.next_eq_none hrun]
    exact hc.split priority
  · rw [hrun] at hcounted
    refine ⟨hcounted, fun priority => ?_⟩
    obtain ⟨queue, hqueue, -, rfl⟩ := hc.counted.next_eq_some hrun
    dsimp only
    rw [ofPriority_append_singleton, hc.split priority, List.append_assoc]
    congr 1
    rcases eq_or_ne priority pending.priority with rfl | hne
    · rw [if_pos rfl, Function.update_self, hqueue]
      rfl
    · rw [if_neg hne.symm, Function.update_of_ne hne, List.nil_append]

theorem Conserved.step (hc : h.Conserved size) (call : SendScheduler.Call φ) :
    (h.step size call).Conserved size := by
  cases call with
  | enqueue pending => exact hc.enqueue pending
  | next bufferedBytes => exact hc.next bufferedBytes

/-- The limits are those of the constructor. -/
theorem maxPendingBytes_step (h : History φ) (call : SendScheduler.Call φ) :
    (h.step size call).scheduler.maxPendingBytes = h.scheduler.maxPendingBytes := by
  cases call with
  | enqueue pending =>
    rw [History.step, SendScheduler.enqueueExec_eq]
    cases hrun : h.scheduler.enqueue size pending with
    | error e => rfl
    | ok s' =>
      obtain ⟨-, rfl⟩ := SendScheduler.enqueue_eq_ok hrun
      rfl
  | next bufferedBytes =>
    have hnext := SendScheduler.maxPendingBytes_next size h.scheduler bufferedBytes
    rw [History.step]
    rcases hrun : h.scheduler.next size bufferedBytes with ⟨_ | pending, s'⟩ <;>
      rw [hrun] at hnext <;> exact hnext

/-- Together, the frames of the four priorities are all frames. -/
theorem perm_ofPriority (l : List (PendingSend φ)) :
    (ofPriority .control l ++ ofPriority .manifest l ++ ofPriority .smallFile l ++
      ofPriority .bulk l).Perm l := by
  classical
  rw [List.perm_iff_count]
  intro pending
  have hcount : ∀ priority, (ofPriority priority l).count pending =
      if pending.priority = priority then l.count pending else 0 := by
    intro priority
    split
    · rename_i hpriority
      exact List.count_filter (decide_eq_true hpriority)
    · rename_i hpriority
      exact List.count_eq_zero.mpr fun hmem =>
        hpriority (of_decide_eq_true (List.mem_filter.mp hmem).2)
  simp only [List.count_append, hcount]
  cases pending.priority <;> simp

end History

/-- **`SendScheduler`, over every sequence of calls**: the counter is the size of what is queued and
within the budget, so that neither subtraction underflows; a rejected frame changes nothing; what
was accepted has been returned once or is queued, in the order of arrival within a priority; and a
frame only leaves when nothing of a higher priority is queued. -/
theorem send_scheduler_runs {φ : Type} (size : φ → Nat) (maxPendingBytes resumeBelowBytes : Nat)
    (created : SendScheduler φ)
    (hcreate : SendScheduler.create maxPendingBytes resumeBelowBytes = .ok created)
    (calls : List (SendScheduler.Call φ)) :
    let h := Run.run (History.step size) ⟨created, [], []⟩ calls
    let s := h.scheduler
    s.pendingBytes = SendScheduler.bytesOf size s.queued ∧ s.pendingBytes ≤ s.maxPendingBytes ∧
      s.maxPendingBytes = maxPendingBytes ∧
      (∀ pending e s', SendScheduler.enqueueExec size pending s = (.error e, s') → s' = s) ∧
      h.accepted.Perm (h.returned ++ s.queued) ∧
      (∀ priority, History.ofPriority priority h.accepted =
        History.ofPriority priority h.returned ++ s.queues priority) ∧
      ∀ bufferedBytes pending s', s.next size bufferedBytes = (some pending, s') →
        size pending.wire ≤ s.pendingBytes ∧
        ∀ priority, SendScheduler.rank priority < SendScheduler.rank pending.priority →
          s.queues priority = [] := by
  intro h s
  rw [SendScheduler.create] at hcreate
  split at hcreate
  · cases hcreate
  cases hcreate
  have hinit : History.Conserved size (φ := φ)
      ⟨⟨fun _ => [], maxPendingBytes, resumeBelowBytes, 0⟩, [], []⟩ :=
    ⟨⟨rfl, Nat.zero_le _, fun _ _ hmem => absurd hmem List.not_mem_nil⟩, fun _ => rfl⟩
  have hc : h.Conserved size := Run.run_invariant_all (fun _ call hc => hc.step call) calls hinit
  have hmax : s.maxPendingBytes = maxPendingBytes :=
    Run.run_invariant_all (I := fun h : History φ => h.scheduler.maxPendingBytes = maxPendingBytes)
      (fun t call ht => (History.maxPendingBytes_step t call).trans ht) calls rfl
  refine ⟨hc.counted.pendingBytes, hc.counted.le_max, hmax, fun pending e s' hrun => ?_, ?_,
    hc.split, fun bufferedBytes pending s' hrun => ?_⟩
  · rw [SendScheduler.enqueueExec_eq] at hrun
    split at hrun
    · cases hrun
    · cases hrun
      rfl
  · refine (History.perm_ofPriority h.accepted).symm.trans ?_
    refine .trans ?_ ((History.perm_ofPriority h.returned).append_right _)
    -- each priority keeps its frames in order, so all of them together are a permutation
    simp only [hc.split, SendScheduler.queued, s]
    classical
    rw [List.perm_iff_count]
    intro pending
    simp only [List.count_append]
    omega
  · obtain ⟨queue, hqueue, hearlier, -⟩ := hc.counted.next_eq_some hrun
    exact ⟨hc.counted.size_le hqueue, hearlier⟩

/-- A bulk frame, a control frame that overtakes it, and a frame that is too large. -/
def mixedCalls : List (SendScheduler.Call Nat) :=
  [.enqueue ⟨.bulk, .bulk, 4⟩, .enqueue ⟨.control, .control, 3⟩, .enqueue ⟨.bulk, .bulk, 9⟩,
    .next 0, .next 5]

theorem send_scheduler_runs_mixed :
    let h := Run.run (History.step id) ⟨⟨fun _ => [], 10, 5, 0⟩, [], []⟩ mixedCalls
    h.returned = [⟨.control, .control, 3⟩] ∧ h.accepted.Perm (h.returned ++ h.scheduler.queued) ∧
      h.scheduler.pendingBytes = 4 ∧ h.scheduler.pendingBytes ≤ h.scheduler.maxPendingBytes := by
  have h := send_scheduler_runs id 10 5 ⟨fun _ => [], 10, 5, 0⟩ rfl mixedCalls
  exact ⟨by decide, h.2.2.2.2.1, by decide, h.2.1⟩

end Transport

end VeritasSync
