import VeritasSync.Transport.FrameFragments

/-!
# What waits to be sent over a DataChannel

`WebRtcTransport::Send` cuts a frame into fragments and queues them; `Pump` hands the queues to the
bridge while it is ready and has little buffered.  Whether there is room for a frame is decided
before it is cut, by a formula for the size of its fragments, and the counters of the queues are
unsigned machine words.

The bridge is a library around libwebrtc.  Its `IsReady` asks for a connected peer and two open
channels, its two buffered amounts are those of the channels, and `SendControl` and `SendBulk` give
a fragment to `DataChannel::Send` unless the bridge is closing or has no channel.  The rest is
libwebrtc, which is not part of this repository, so the answers of the bridge are an argument: one
for each time it is asked.  An open channel whose buffer is not full takes what it is given, and
where a theorem needs this it has `bridge.accepts` as a hypothesis.

`sent` and `handed` are bookkeeping for statements about runs.

The formula must not be too small, or the queue would exceed its budget, and it must not overflow,
or a frame of an absurd size would look like a small one.  It is compared with what cutting the
frame comes to; then the counter of the queue is the sum of what is in it, and the subtraction in
`Pump` has enough to subtract from.

## What is here

* `toNat_fragmentedSize` — the formula is right.
* `Lane.Sound` — the counter of a queue is the size of what is in it, and what has been handed over
  and what is still in the queue are the fragments of the accepted frames.
* `WebRtcTransport.sound_step` — a call keeps this, and both queues within the budget.
* `send_queue_sound` — what holds after any sequence of calls.
-/

set_option autoImplicit false

namespace VeritasSync

namespace Transport

/-- What is waiting on one channel. -/
structure Lane where
  outgoing : List Bytes := []
  queuedBytes : UInt64 := 0
  /-- The fragments that the bridge has taken. -/
  handed : List Bytes := []
  /-- The frames that have been accepted, with their numbers. -/
  sent : List (UInt64 × Bytes) := []
  deriving DecidableEq

/-- The members of a `WebRtcTransport` that sending uses. -/
structure WebRtcTransport where
  control : Lane := {}
  bulk : Lane := {}
  nextMessageId : UInt64 := 1
  /-- Set when reassembly has failed. -/
  wireError : Option String := none
  /-- How often the bridge has been asked. -/
  asked : Nat := 0
  deriving DecidableEq

/-- What the bridge does when it is asked for the `i`-th time: `IsReady`, the buffered amount of the
channel, and the answer of `SendControl` or `SendBulk` to the fragment it is handed then. -/
structure Bridge where
  ready : Nat → Bool
  buffered : Nat → Nat
  accepts : Nat → Bool

/-- The budget of a peer for both channels. -/
def sendBudget : UInt64 := 32 * 1024 * 1024

/-- Below this buffered amount the bridge gets more. -/
def resumeBufferedAmount : Nat := 512 * 1024

/-- The size that `Send` computes for a frame of the given length. -/
def fragmentedSize (length : Nat) : UInt64 :=
  UInt64.ofNat length +
    (UInt64.ofNat length + UInt64.ofNat fragmentPayloadSize - 1) /
      UInt64.ofNat fragmentPayloadSize * 20

/-- One round of the loop of `Send` over the fragments. -/
def Lane.push (lane : Lane) (fragment : Bytes) : Lane :=
  { lane with
    queuedBytes := lane.queuedBytes + UInt64.ofNat fragment.length
    outgoing := lane.outgoing ++ [fragment] }

/-- The loop of `Pump` on one channel, over what is in its queue. -/
def pumpLane (bridge : Bridge) (wireError : Option String) (outgoing : List Bytes) (lane : Lane)
    (asked : Nat) : Except Error Unit × Lane × Nat :=
  if bridge.ready asked && bridge.buffered asked < resumeBufferedAmount then
    match wireError with
    | some what => (.error (.runtimeError what), { lane with outgoing := outgoing }, asked + 1)
    | none =>
      match outgoing with
      | [] => (.ok (), { lane with outgoing := [] }, asked + 1)
      | fragment :: rest =>
        let lane :=
          { lane with queuedBytes := lane.queuedBytes - UInt64.ofNat fragment.length }
        if bridge.accepts asked then
          pumpLane bridge none rest { lane with handed := lane.handed ++ [fragment] } (asked + 1)
        else
          (.error (.runtimeError "WebRTC DataChannel rejected fragment"),
            { lane with outgoing := rest }, asked + 1)
  else (.ok (), { lane with outgoing := outgoing }, asked + 1)

namespace WebRtcTransport

/-- `Pump`: both queues are handed over as far as the bridge takes them, control frames first. -/
def pump (bridge : Bridge) : Exec WebRtcTransport Error Unit := fun s =>
  match pumpLane bridge s.wireError s.control.outgoing s.control s.asked with
  | (.error e, control, asked) => (.error e, { s with control := control, asked := asked })
  | (.ok (), control, asked) =>
    match pumpLane bridge s.wireError s.bulk.outgoing s.bulk asked with
    | (result, bulk, asked) =>
      (result, { s with control := control, bulk := bulk, asked := asked })

/-- What waits on a channel. -/
def lane (s : WebRtcTransport) : Channel → Lane
  | .control => s.control
  | .bulk => s.bulk

/-- The transport with what waits on a channel replaced. -/
def setLane (s : WebRtcTransport) : Channel → Lane → WebRtcTransport
  | .control, lane => { s with control := lane }
  | .bulk, lane => { s with bulk := lane }

/-- The part of `Send` under the lock, for a frame of a length that is admitted. -/
def queueFrame (channel : Channel) (wire : Bytes) : Exec WebRtcTransport Error Unit := do
  let s ← Exec.state
  if fragmentedSize wire.length > sendBudget - s.control.queuedBytes - s.bulk.queuedBytes then
    Exec.raise (.lengthError "per-peer WebRTC send budget exceeded")
  else do
    Exec.update fun s => { s with nextMessageId := s.nextMessageId + 1 }
    let fragments ← Exec.check fun _ => fragmentFrame s.nextMessageId wire
    Exec.update fun t =>
      let queued := fragments.foldl Lane.push (t.lane channel)
      t.setLane channel { queued with sent := queued.sent ++ [(s.nextMessageId, wire)] }

/-- `Send`: the fragments of the frame join the queue of its channel, all of them or none, and then
the queues are handed over. -/
def send (bridge : Bridge) (channel : Channel) (wire : Bytes) : Exec WebRtcTransport Error Unit :=
  if wire = [] ∨ wire.length > Wire.maxFrameSize then
    Exec.raise (.invalidArgument "invalid WebRTC frame")
  else do
    queueFrame channel wire
    pump bridge

/-- A call. -/
inductive Call where
  | send (channel : Channel) (wire : Bytes)
  | pump

/-- The transport after a call.  What it throws goes to the caller. -/
def step (bridge : Bridge) (s : WebRtcTransport) : Call → WebRtcTransport
  | .send channel wire => (send bridge channel wire s).2
  | .pump => (pump bridge s).2

end WebRtcTransport

/-! ## The formula -/

/-- The fragments of a frame together. -/
theorem sum_fragmentLoop (id : UInt64) (wire : Bytes) (k i : Nat)
    (hk : Chunks.count fragmentPayloadSize wire.length = i + k) :
    ((fragmentLoop id wire (i * fragmentPayloadSize)).map List.length).sum =
      wire.length - i * fragmentPayloadSize + k * fragmentHeader := by
  induction k generalizing i with
  | zero =>
    have hend : ¬ i * fragmentPayloadSize < wire.length := by
      rw [← Chunks.lt_count_iff fragmentPayloadSize_pos, hk]
      omega
    rw [fragmentLoop, if_neg hend, List.map_nil, List.sum_nil]
    omega
  | succ k ih =>
    have hin : i * fragmentPayloadSize < wire.length := by
      rw [← Chunks.lt_count_iff fragmentPayloadSize_pos, hk]
      omega
    have hrest := ih (i + 1) (by omega)
    rw [Nat.succ_mul] at hrest
    rw [fragmentLoop, if_pos hin, List.map_cons, List.sum_cons, hrest, length_fragmentAt,
      Nat.succ_mul]
    omega

/-- The formula does not wrap around. -/
theorem toNat_fragmentedSize_eq {n : Nat} (hpos : 0 < n) (hle : n ≤ Wire.maxFrameSize) :
    (fragmentedSize n).toNat = n + Chunks.count fragmentPayloadSize n * fragmentHeader := by
  simp only [Wire.maxFrameSize] at hle
  have hn : (UInt64.ofNat n).toNat = n :=
    UInt64.toNat_ofNat_of_lt' (lt_of_le_of_lt hle (by decide))
  have hpayload : (UInt64.ofNat fragmentPayloadSize).toNat = fragmentPayloadSize := rfl
  have hround : (UInt64.ofNat n + UInt64.ofNat fragmentPayloadSize - 1).toNat =
      n + fragmentPayloadSize - 1 := by
    rw [UInt64.toNat_sub, UInt64.toNat_add, hn, hpayload]
    simp only [fragmentPayloadSize, UInt64.reduceToNat]
    omega
  have hcount : ((UInt64.ofNat n + UInt64.ofNat fragmentPayloadSize - 1) /
      UInt64.ofNat fragmentPayloadSize).toNat = Chunks.count fragmentPayloadSize n := by
    rw [UInt64.toNat_div, hround]
    rfl
  have hsmall : Chunks.count fragmentPayloadSize n ≤ n := by
    rw [Chunks.count]
    simp only [fragmentPayloadSize]
    omega
  rw [fragmentedSize, UInt64.toNat_add, UInt64.toNat_mul, hcount, hn]
  simp only [fragmentHeader, UInt64.reduceToNat]
  omega

/-- **`Send` computes the size of the fragments.**  By the recursion of the cutting, one payload at
a time. -/
theorem toNat_fragmentedSize {id : UInt64} {wire : Bytes} {fragments : List Bytes}
    (h : fragmentFrame id wire = .ok fragments) :
    (fragmentedSize wire.length).toNat = (fragments.map List.length).sum := by
  rw [fragmentFrame] at h
  split at h
  · cases h
  · rename_i hadmitted
    cases h
    simp only [not_or, not_lt] at hadmitted
    obtain ⟨-, hne, hle⟩ := hadmitted
    have hsum := sum_fragmentLoop id wire (Chunks.count fragmentPayloadSize wire.length) 0
      (Nat.zero_add _).symm
    rw [Nat.zero_mul, Nat.sub_zero] at hsum
    rw [hsum, toNat_fragmentedSize_eq (List.length_pos_of_ne_nil hne) hle]

/-! ## One queue

A queue and its counter.  `Send` adds the fragments of a frame, all of them or none; `Pump` takes
them off one by one, as the bridge accepts them. -/

/-- The counter is the size of what is waiting, and nothing has been lost, repeated or reordered. -/
structure Lane.Sound (lane : Lane) : Prop where
  queued : lane.queuedBytes.toNat = (lane.outgoing.map List.length).sum
  conserved : lane.handed ++ lane.outgoing = lane.sent.flatMap fun f => fragmentLoop f.1 f.2 0
  frames : ∀ f ∈ lane.sent, fragmentFrame f.1 f.2 = .ok (fragmentLoop f.1 f.2 0)

namespace Lane

variable {lane : Lane} {fragment : Bytes} {rest : List Bytes}

theorem Sound.empty : ({} : Lane).Sound := ⟨rfl, rfl, nofun⟩

/-- One fragment leaves the queue, and the counter does not wrap around. -/
theorem Sound.hand (h : ({ lane with outgoing := fragment :: rest } : Lane).Sound) :
    fragment.length ≤ lane.queuedBytes.toNat ∧
      (lane.queuedBytes - UInt64.ofNat fragment.length).toNat =
        lane.queuedBytes.toNat - fragment.length ∧
      ({ lane with
        queuedBytes := lane.queuedBytes - UInt64.ofNat fragment.length
        handed := lane.handed ++ [fragment]
        outgoing := rest } : Lane).Sound := by
  have hqueued : lane.queuedBytes.toNat = fragment.length + (rest.map List.length).sum := h.queued
  have hlt := lane.queuedBytes.toNat_lt
  have hlength : (UInt64.ofNat fragment.length).toNat = fragment.length :=
    UInt64.toNat_ofNat_of_lt' (by simp only [UInt64.size]; omega)
  have hsub : (lane.queuedBytes - UInt64.ofNat fragment.length).toNat =
      lane.queuedBytes.toNat - fragment.length := by
    rw [UInt64.toNat_sub, hlength]
    omega
  refine ⟨by omega, hsub, ?_, ?_, h.frames⟩
  · show (lane.queuedBytes - UInt64.ofNat fragment.length).toNat = (rest.map List.length).sum
    omega
  · show (lane.handed ++ [fragment]) ++ rest = _
    rw [List.append_assoc]
    exact h.conserved

/-- What the loop over the fragments of a frame does to a queue. -/
theorem foldl_push (fragments : List Bytes) (lane : Lane)
    (hroom : lane.queuedBytes.toNat + (fragments.map List.length).sum < 2 ^ 64) :
    (fragments.foldl push lane).outgoing = lane.outgoing ++ fragments ∧
      (fragments.foldl push lane).handed = lane.handed ∧
      (fragments.foldl push lane).sent = lane.sent ∧
      (fragments.foldl push lane).queuedBytes.toNat =
        lane.queuedBytes.toNat + (fragments.map List.length).sum := by
  induction fragments generalizing lane with
  | nil => exact ⟨(List.append_nil _).symm, rfl, rfl, rfl⟩
  | cons fragment fragments ih =>
    rw [List.map_cons, List.sum_cons] at hroom
    have hpush : (lane.push fragment).queuedBytes.toNat =
        lane.queuedBytes.toNat + fragment.length := by
      have hlength : (UInt64.ofNat fragment.length).toNat = fragment.length :=
        UInt64.toNat_ofNat_of_lt' (by simp only [UInt64.size]; omega)
      rw [push, UInt64.toNat_add, hlength]
      omega
    obtain ⟨houtgoing, hhanded, hsent, hqueued⟩ := ih (lane.push fragment) (by omega)
    rw [List.foldl_cons, houtgoing, hhanded, hsent, hqueued, hpush, List.map_cons, List.sum_cons]
    exact ⟨List.append_assoc _ _ _, rfl, rfl, Nat.add_assoc _ _ _⟩

/-- A frame joins the queue. -/
theorem Sound.enqueue (h : lane.Sound) {id : UInt64} {wire : Bytes} {fragments : List Bytes}
    (hfragments : fragmentFrame id wire = .ok fragments)
    (hroom : lane.queuedBytes.toNat + (fragments.map List.length).sum < 2 ^ 64) :
    ({ fragments.foldl push lane with
      sent := (fragments.foldl push lane).sent ++ [(id, wire)] } : Lane).Sound := by
  obtain ⟨houtgoing, hhanded, hsent, hqueued⟩ := foldl_push fragments lane hroom
  have hloop : fragments = fragmentLoop id wire 0 := by
    rw [fragmentFrame] at hfragments
    split at hfragments
    · cases hfragments
    · cases hfragments
      rfl
  refine ⟨?_, ?_, fun f hf => ?_⟩
  · show (fragments.foldl push lane).queuedBytes.toNat = _
    rw [hqueued, houtgoing, List.map_append, List.sum_append, h.queued]
  · show (fragments.foldl push lane).handed ++ (fragments.foldl push lane).outgoing =
      ((fragments.foldl push lane).sent ++ [(id, wire)]).flatMap fun f => fragmentLoop f.1 f.2 0
    rw [houtgoing, hhanded, hsent, ← List.append_assoc, h.conserved, List.flatMap_append,
      List.flatMap_singleton, hloop]
  · have hf' : f ∈ lane.sent ++ [(id, wire)] := hsent ▸ hf
    rcases List.mem_append.mp hf' with hf' | hf'
    · exact h.frames f hf'
    · rw [List.mem_singleton.mp hf', ← hloop]
      exact hfragments

end Lane

/-- **The loop of `Pump`** keeps a queue sound, whatever the bridge answers.  By induction over what
is in the queue; the bridge is asked anew for each fragment. -/
theorem pumpLane_sound {bridge : Bridge} (hbridge : ∀ i, bridge.accepts i = true)
    (outgoing : List Bytes) (lane : Lane) (asked : Nat)
    (h : ({ lane with outgoing := outgoing } : Lane).Sound) :
    ∃ lane' asked', pumpLane bridge none outgoing lane asked = (.ok (), lane', asked') ∧
      lane'.Sound ∧ lane'.queuedBytes.toNat ≤ lane.queuedBytes.toNat ∧ lane'.sent = lane.sent := by
  induction outgoing generalizing lane asked with
  | nil =>
    rw [pumpLane.eq_def]
    split
    · exact ⟨_, _, rfl, h, le_rfl, rfl⟩
    · exact ⟨_, _, rfl, h, le_rfl, rfl⟩
  | cons fragment rest ih =>
    rw [pumpLane.eq_def]
    split
    · obtain ⟨hle, hsub, hsound⟩ := h.hand
      dsimp only
      rw [if_pos (hbridge asked)]
      obtain ⟨lane', asked', hrun, hsound', hqueued, hsent⟩ := ih
        { lane with
          queuedBytes := lane.queuedBytes - UInt64.ofNat fragment.length
          handed := lane.handed ++ [fragment] } (asked + 1) hsound
      refine ⟨lane', asked', hrun, hsound', hqueued.trans ?_, hsent⟩
      show (lane.queuedBytes - UInt64.ofNat fragment.length).toNat ≤ _
      omega
    · exact ⟨_, _, rfl, h, le_rfl, rfl⟩

/-! ## Both queues

Control and bulk frames have a queue each and share the calls.  What the bridge answers can be
different at each question, so `Pump` is followed question by question. -/

namespace WebRtcTransport

variable {bridge : Bridge} {s : WebRtcTransport}

/-- What holds of a transport between two calls, as long as reassembly has not failed. -/
structure Sound (s : WebRtcTransport) : Prop where
  control : s.control.Sound
  bulk : s.bulk.Sound
  budget : s.control.queuedBytes.toNat + s.bulk.queuedBytes.toNat ≤ sendBudget.toNat
  quiet : s.wireError = none

theorem Sound.empty : ({} : WebRtcTransport).Sound :=
  ⟨.empty, .empty, Nat.zero_le _, rfl⟩

/-- **`Pump`** hands over what it can.  First the one queue and then the other. -/
theorem pump_sound (hbridge : ∀ i, bridge.accepts i = true) (h : s.Sound) :
    ∃ s', pump bridge s = (.ok (), s') ∧ s'.Sound ∧
      ∀ channel, (s'.lane channel).sent = (s.lane channel).sent := by
  obtain ⟨control, asked, hcontrol, hcsound, hcqueued, hcsent⟩ :=
    pumpLane_sound hbridge s.control.outgoing s.control s.asked h.control
  obtain ⟨bulk, asked', hbulk, hbsound, hbqueued, hbsent⟩ :=
    pumpLane_sound hbridge s.bulk.outgoing s.bulk asked h.bulk
  have hbudget := h.budget
  refine ⟨{ s with control := control, bulk := bulk, asked := asked' }, ?_,
    ⟨hcsound, hbsound, ?_, h.quiet⟩, fun channel => ?_⟩
  · rw [pump, h.quiet, hcontrol]
    dsimp only
    rw [hbulk]
  · show control.queuedBytes.toNat + bulk.queuedBytes.toNat ≤ _
    omega
  · cases channel with
    | control => exact hcsent
    | bulk => exact hbsent

/-- The frame is accepted, and the other channel has no part in it. -/
def Accepted (channel : Channel) (wire : Bytes) (s s' : WebRtcTransport) : Prop :=
  ∃ id, (s'.lane channel).sent = (s.lane channel).sent ++ [(id, wire)] ∧
    ∀ other ≠ channel, (s'.lane other).sent = (s.lane other).sent

/-- The locked part of `Send`: all fragments of the frame are queued, or none is. -/
theorem wp_queueFrame (channel : Channel) (wire : Bytes) (h : s.Sound) :
    Exec.Wp (queueFrame channel wire)
      (fun _ s' => s'.Sound ∧ Accepted channel wire s s')
      (fun _ s' => s'.Sound ∧ s'.control = s.control ∧ s'.bulk = s.bulk) s := by
  rw [queueFrame, Exec.wp_bind, Exec.wp_state]
  refine Exec.wp_ite (fun _ => ⟨h, rfl, rfl⟩) fun hroom => ?_
  rw [Exec.wp_bind, Exec.wp_update, Exec.wp_bind]
  refine Exec.wp_check (fun _ _ => ⟨⟨h.control, h.bulk, h.budget, h.quiet⟩, rfl, rfl⟩)
    fun fragments hfragments => ?_
  rw [Exec.wp_update]
  have hbudget := h.budget
  have hmax : sendBudget.toNat = 32 * 1024 * 1024 := rfl
  have hfits : s.control.queuedBytes.toNat + s.bulk.queuedBytes.toNat +
      (fragments.map List.length).sum ≤ sendBudget.toNat := by
    rw [gt_iff_lt, UInt64.lt_iff_toNat_lt, UInt64.toNat_sub, UInt64.toNat_sub,
      toNat_fragmentedSize hfragments] at hroom
    omega
  cases channel with
  | control =>
    have hlane : s.control.queuedBytes.toNat + (fragments.map List.length).sum < 2 ^ 64 := by omega
    obtain ⟨-, -, hsent, hqueued⟩ := Lane.foldl_push fragments s.control hlane
    refine ⟨⟨h.control.enqueue hfragments hlane, h.bulk, ?_, h.quiet⟩, s.nextMessageId, ?_, ?_⟩
    · show (fragments.foldl Lane.push s.control).queuedBytes.toNat + s.bulk.queuedBytes.toNat ≤ _
      omega
    · exact congrArg (· ++ [(s.nextMessageId, wire)]) hsent
    · intro other hother
      cases other with
      | control => exact absurd rfl hother
      | bulk => rfl
  | bulk =>
    have hlane : s.bulk.queuedBytes.toNat + (fragments.map List.length).sum < 2 ^ 64 := by omega
    obtain ⟨-, -, hsent, hqueued⟩ := Lane.foldl_push fragments s.bulk hlane
    refine ⟨⟨h.control, h.bulk.enqueue hfragments hlane, ?_, h.quiet⟩, s.nextMessageId, ?_, ?_⟩
    · show s.control.queuedBytes.toNat + (fragments.foldl Lane.push s.bulk).queuedBytes.toNat ≤ _
      omega
    · exact congrArg (· ++ [(s.nextMessageId, wire)]) hsent
    · intro other hother
      cases other with
      | control => rfl
      | bulk => exact absurd rfl hother

/-- **`Send`**: the frame is accepted, or the queues stay as they are.  The budget is tested against
both queues. -/
theorem wp_send (hbridge : ∀ i, bridge.accepts i = true) (h : s.Sound) (channel : Channel)
    (wire : Bytes) :
    Exec.Wp (send bridge channel wire)
      (fun _ s' => s'.Sound ∧ Accepted channel wire s s')
      (fun _ s' => s'.Sound ∧ s'.control = s.control ∧ s'.bulk = s.bulk) s := by
  refine Exec.wp_ite (fun _ => ⟨h, rfl, rfl⟩) fun _ => ?_
  rw [Exec.wp_bind]
  refine Exec.wp_mono (wp_queueFrame channel wire h) (fun _ s₁ h₁ => ?_) fun _ _ h₁ => h₁
  obtain ⟨hsound, id, hsent, hothers⟩ := h₁
  obtain ⟨s₂, hpump, hsound₂, hsent₂⟩ := pump_sound hbridge hsound
  rw [Exec.Wp, hpump]
  exact ⟨hsound₂, id, (hsent₂ channel).trans hsent,
    fun other hother => (hsent₂ other).trans (hothers other hother)⟩

/-- **Every call keeps the queues sound.** -/
theorem sound_step (hbridge : ∀ i, bridge.accepts i = true) (s : WebRtcTransport) (call : Call)
    (h : s.Sound) : (step bridge s call).Sound := by
  cases call with
  | send channel wire =>
    exact Exec.of_wp (Exec.wp_mono (wp_send hbridge h channel wire) (fun _ _ h => h.1)
      fun _ _ h => h.1)
  | pump =>
    obtain ⟨s', hpump, hsound, -⟩ := pump_sound hbridge h
    rw [step, hpump]
    exact hsound

end WebRtcTransport

/-- **The send queues**: after any calls of `Send` and `Pump`, whatever the bridge says of itself,
and as long as it takes what it is handed, the counters are the sizes of the queues and within the
budget together, and the fragments of the accepted frames have been handed over or are queued, in
order; what `Send` computes is the size of the fragments; and the next `Send` accepts its frame or
leaves the queues alone. -/
theorem send_queue_sound (bridge : Bridge) (hbridge : ∀ i, bridge.accepts i = true)
    (calls : List WebRtcTransport.Call) :
    let s := Run.run (WebRtcTransport.step bridge) {} calls
    s.Sound ∧
      (∀ id wire fragments, fragmentFrame id wire = .ok fragments →
        (fragmentedSize wire.length).toNat = (fragments.map List.length).sum) ∧
      ∀ channel wire,
        (∀ e, (WebRtcTransport.send bridge channel wire s).1 = .error e →
          (WebRtcTransport.send bridge channel wire s).2.control = s.control ∧
            (WebRtcTransport.send bridge channel wire s).2.bulk = s.bulk) ∧
        ((WebRtcTransport.send bridge channel wire s).1 = .ok () →
          WebRtcTransport.Accepted channel wire s
            (WebRtcTransport.send bridge channel wire s).2) := by
  intro s
  have hs : s.Sound := Run.run_invariant_all
    (fun t call ht => WebRtcTransport.sound_step hbridge t call ht) calls .empty
  refine ⟨hs, fun _ _ _ h => toNat_fragmentedSize h, fun channel wire => ?_⟩
  have hsend := WebRtcTransport.wp_send hbridge hs channel wire
  rw [Exec.Wp] at hsend
  rcases hrun : WebRtcTransport.send bridge channel wire s with ⟨e | u, s'⟩
  · rw [hrun] at hsend
    exact ⟨fun _ _ => hsend.2, by rintro ⟨⟩⟩
  · rw [hrun] at hsend
    exact ⟨by rintro _ ⟨⟩, fun _ => hsend.2⟩

/-- A bridge that is ready and takes two fragments before it has much buffered. -/
def sampleBridge : Bridge := ⟨fun _ => true, fun i => if i < 2 then 0 else 2 ^ 20, fun _ => true⟩

/-- Three frames are sent. -/
def sampleCalls : List WebRtcTransport.Call :=
  [.send .bulk [1], .send .control [2], .send .bulk [3]]

theorem send_queue_sound_sample :
    (Run.run (WebRtcTransport.step sampleBridge) {} sampleCalls).Sound :=
  (send_queue_sound sampleBridge (fun _ => rfl) sampleCalls).1

end Transport

end VeritasSync
