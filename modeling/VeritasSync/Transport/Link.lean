import VeritasSync.Transport.SendQueue

/-!
# From one peer's `Send` to the other peer's session

What a session sends goes through the queues of its `WebRtcTransport`, over two DataChannels, and
through the reassembly of the other peer's `WebRtcTransport` into a `QueuedPeerTransport`, whose
`PumpReceived` gives it to the other session.  The control channel is ordered and the bulk channel
is not; both are reliable.

A state is one direction of this.  What is on its way over a channel is what has been handed to the
bridge and has not arrived; on the control channel the next fragment to arrive is the oldest.  The
callback of the session catches what it throws.

The pieces are known: queues that hand out fragments in order, channels, a reassembler, and a queue
between two threads.  Here they are put together.  The invariant follows every fragment from one end
to the other: it is in the queue, or on its way, or has arrived; and every frame is in fragments
somewhere, or pending, or in the last queue, or delivered.  That nothing is lost or doubled is then
a matter of adding up.

## What is here

* `QueuedPeerTransport` — the queue between the threads.
* `Link.step` — one direction of a connection.
* `Link.Steady` — nothing pending expires, and the bulk channel stays within the limits of
  reassembly.  On the control channel the limits are kept by themselves.
* `link_delivers` — **the session gets what was sent**: on the control channel in order, on the bulk
  channel each frame once.
-/

set_option autoImplicit false

namespace VeritasSync

namespace Transport

/-! ## The queue between the threads -/

/-- The members of a `QueuedPeerTransport` that receiving uses. -/
structure QueuedPeerTransport where
  received : List (Channel × Bytes) := []
  receivedBytes : UInt64 := 0
  /-- Whether there is somebody to call. -/
  callback : Bool := false
  overflow : Bool := false
  deriving DecidableEq

/-- The bytes that may wait for a session. -/
def receiveBudget : UInt64 := 32 * 1024 * 1024

namespace QueuedPeerTransport

/-- What the transport inside calls with a frame. -/
def receive (q : QueuedPeerTransport) (channel : Channel) (wire : Bytes) : QueuedPeerTransport :=
  if UInt64.ofNat wire.length > receiveBudget - q.receivedBytes then { q with overflow := true }
  else
    { q with
      receivedBytes := q.receivedBytes + UInt64.ofNat wire.length
      received := q.received ++ [(channel, wire)] }

/-- `PumpReceived`: the calls it makes.  `inner` is what the transport inside answers to `Pump`. -/
def pumpReceived (inner : Except Error Unit) :
    Exec QueuedPeerTransport Error (List (Channel × Bytes)) := do
  Exec.check fun _ => inner
  let q ← Exec.state
  if q.overflow then Exec.raise (.runtimeError "per-peer receive budget exceeded")
  else
    Exec.update fun q => { q with received := [], receivedBytes := 0 }
    pure (if q.callback then q.received else [])

/-- The counter is the size of what is waiting, and within the budget. -/
structure Sound (q : QueuedPeerTransport) : Prop where
  counted : q.receivedBytes.toNat = (q.received.map fun r => r.2.length).sum
  budget : q.receivedBytes.toNat ≤ receiveBudget.toNat

theorem Sound.taken (q : QueuedPeerTransport) :
    Sound { q with received := [], receivedBytes := 0 } :=
  ⟨rfl, by show (0 : UInt64).toNat ≤ receiveBudget.toNat; decide⟩

theorem Sound.receive {q : QueuedPeerTransport} (h : q.Sound) (channel : Channel) {wire : Bytes}
    (hwire : wire.length ≤ Wire.maxFrameSize) : (q.receive channel wire).Sound := by
  have hlength : (UInt64.ofNat wire.length).toNat = wire.length :=
    UInt64.toNat_ofNat_of_lt' (lt_of_le_of_lt hwire (by decide))
  have hbudget := h.budget
  have hmax : receiveBudget.toNat = 32 * 1024 * 1024 := rfl
  rw [QueuedPeerTransport.receive]
  split
  · exact ⟨h.counted, h.budget⟩
  · rename_i hroom
    rw [gt_iff_lt, UInt64.lt_iff_toNat_lt, UInt64.toNat_sub, hlength] at hroom
    have hsum : (q.receivedBytes + UInt64.ofNat wire.length).toNat =
        q.receivedBytes.toNat + wire.length := by
      rw [UInt64.toNat_add, hlength]
      omega
    constructor
    · show (q.receivedBytes + UInt64.ofNat wire.length).toNat = _
      rw [hsum, h.counted, List.map_append, List.sum_append]
      rfl
    · show (q.receivedBytes + UInt64.ofNat wire.length).toNat ≤ _
      omega

end QueuedPeerTransport

/-! ## The connection -/

/-- One channel on the side that receives. -/
structure Inbound where
  reassembly : FrameReassembler := {}
  /-- The fragments that have arrived, the last one first. -/
  arrived : List Bytes := []
  deriving DecidableEq

/-- One direction of a connection.  `offered` and `delivered` are bookkeeping: the frames that have
been put together, and those the session has got. -/
structure Link where
  sender : WebRtcTransport := {}
  control : Inbound := {}
  bulk : Inbound := {}
  /-- `wire_error_` of the transport that receives. -/
  wireError : Option Error := none
  queue : QueuedPeerTransport := { callback := true }
  offered : List (Channel × Bytes) := []
  delivered : List (Channel × Bytes) := []
  deriving DecidableEq

/-- The frames of a channel. -/
def framesOn (channel : Channel) (frames : List (Channel × Bytes)) : List Bytes :=
  (frames.filter fun f => f.1 = channel).map Prod.snd

namespace Link

/-- What happens on one direction of a connection. -/
inductive Action where
  | call (call : WebRtcTransport.Call)
  /-- A fragment arrives, on the clock of the receiver. -/
  | arrive (channel : Channel) (fragment : Bytes) (now : Nat)
  /-- `PumpReceived`, with the answer of the transport inside to its `Pump`. -/
  | pumpReceived (inner : Except Error Unit)

/-- A channel on the side that receives. -/
def inbound (w : Link) : Channel → Inbound
  | .control => w.control
  | .bulk => w.bulk

/-- The link with a channel replaced. -/
def setInbound (w : Link) : Channel → Inbound → Link
  | .control, inbound => { w with control := inbound }
  | .bulk, inbound => { w with bulk := inbound }

/-- The fragment is on its way and can be the next to arrive. -/
def InFlight (w : Link) (fragment : Bytes) : Channel → Prop
  | .control => w.sender.control.handed[w.control.arrived.length]? = some fragment
  | .bulk => fragment ∈ w.sender.bulk.handed ∧ fragment ∉ w.bulk.arrived

instance (w : Link) (fragment : Bytes) : DecidablePred (w.InFlight fragment)
  | .control =>
    inferInstanceAs (Decidable (w.sender.control.handed[w.control.arrived.length]? = some fragment))
  | .bulk =>
    inferInstanceAs (Decidable (fragment ∈ w.sender.bulk.handed ∧ fragment ∉ w.bulk.arrived))

/-- `Receive` of the transport on the side that receives. -/
def receive (w : Link) (channel : Channel) (fragment : Bytes) (now : Nat) : Link :=
  match FrameReassembler.accept fragment now (w.inbound channel).reassembly with
  | (result, reassembly) =>
    let w := w.setInbound channel ⟨reassembly, fragment :: (w.inbound channel).arrived⟩
    match result with
    | .error e => { w with wireError := some e }
    | .ok none => w
    | .ok (some frame) =>
      { w with
        queue := w.queue.receive channel frame
        offered := w.offered ++ [(channel, frame)] }

/-- One step.  A fragment that is not on its way does not arrive. -/
def step (bridge : Bridge) (w : Link) : Action → Link
  | .call call => { w with sender := WebRtcTransport.step bridge w.sender call }
  | .arrive channel fragment now =>
    if w.InFlight fragment channel then w.receive channel fragment now else w
  | .pumpReceived inner =>
    match QueuedPeerTransport.pumpReceived inner w.queue with
    | (.error _, queue) => { w with queue := queue }
    | (.ok calls, queue) => { w with queue := queue, delivered := w.delivered ++ calls }

/-- Nothing pending expires, the bulk channel stays within the limits of reassembly, and the message
numbers do not run out. -/
def Steady (w : Link) : Action → Prop
  | .call (.send _ _) => w.sender.nextMessageId.toNat + 1 < 2 ^ 64
  | .arrive .control _ now =>
    ∀ entry ∈ w.control.reassembly.pending.entries, now ≤ entry.2.touched + partialLifetime
  | .arrive .bulk fragment now => Roomy w.bulk.reassembly fragment now
  | _ => True

instance (w : Link) : DecidablePred w.Steady
  | .call (.send _ _) => inferInstanceAs (Decidable (w.sender.nextMessageId.toNat + 1 < 2 ^ 64))
  | .call .pump => inferInstanceAs (Decidable True)
  | .arrive .control _ now =>
    inferInstanceAs (Decidable (∀ entry ∈ w.control.reassembly.pending.entries,
      now ≤ entry.2.touched + partialLifetime))
  | .arrive .bulk fragment now =>
    inferInstanceAs (Decidable (Roomy w.bulk.reassembly fragment now))
  | .pumpReceived _ => inferInstanceAs (Decidable True)

end Link

/-! ## A prefix of a concatenation -/

/-- Some lists whole, and a part of the next one. -/
theorem split_of_prefix {α β : Type} {g : α → List β} {l : List α} {A : List β}
    (h : A <+: l.flatMap g) :
    ∃ before part rest, l = before ++ rest ∧ A = before.flatMap g ++ part ∧
      ∀ a later, rest = a :: later → part <+: g a ∧ part.length < (g a).length := by
  induction l generalizing A with
  | nil =>
    rw [List.flatMap_nil, List.prefix_nil] at h
    subst h
    exact ⟨[], [], [], rfl, rfl, fun _ _ h => absurd h (List.cons_ne_nil _ _).symm⟩
  | cons a l ih =>
    rw [List.flatMap_cons] at h
    by_cases hlength : A.length < (g a).length
    · refine ⟨[], A, a :: l, rfl, rfl, ?_⟩
      intro b later heq
      cases heq
      exact ⟨List.prefix_of_prefix_length_le h (List.prefix_append _ _) hlength.le, hlength⟩
    · obtain ⟨B, rfl⟩ := List.prefix_of_prefix_length_le (List.prefix_append _ _) h
        (Nat.le_of_not_lt hlength)
      obtain ⟨before, part, rest, rfl, rfl, hpart⟩ :=
        ih ((List.prefix_append_right_inj _).mp h)
      refine ⟨a :: before, part, rest, rfl, ?_, hpart⟩
      rw [List.flatMap_cons, List.append_assoc]

/-! ## The sender

What the sender has handed over is the beginning of the fragments of the frames that it has
accepted; on each channel separately. -/

/-- What the loop over the fragments of a frame leaves alone. -/
theorem Lane.foldl_push_frame (fragments : List Bytes) (lane : Lane) :
    (fragments.foldl push lane).handed = lane.handed ∧
      (fragments.foldl push lane).sent = lane.sent := by
  induction fragments generalizing lane with
  | nil => exact ⟨rfl, rfl⟩
  | cons fragment fragments ih => exact ih (lane.push fragment)

/-- The loop of `Pump` hands over, and sends nothing new. -/
theorem pumpLane_grows (bridge : Bridge) (outgoing : List Bytes) (wireError : Option String)
    (lane : Lane) (asked : Nat) :
    lane.handed <+: (pumpLane bridge wireError outgoing lane asked).2.1.handed ∧
      (pumpLane bridge wireError outgoing lane asked).2.1.sent = lane.sent := by
  induction outgoing generalizing wireError lane asked with
  | nil =>
    rw [pumpLane.eq_def]
    split
    · split <;> exact ⟨List.prefix_rfl, rfl⟩
    · exact ⟨List.prefix_rfl, rfl⟩
  | cons fragment rest ih =>
    rw [pumpLane.eq_def]
    split
    · split
      · exact ⟨List.prefix_rfl, rfl⟩
      · dsimp only
        split
        · obtain ⟨hhanded, hsent⟩ := ih none
            { lane with
              queuedBytes := lane.queuedBytes - UInt64.ofNat fragment.length
              handed := lane.handed ++ [fragment] } (asked + 1)
          exact ⟨(List.prefix_append _ _).trans hhanded, hsent⟩
        · exact ⟨List.prefix_rfl, rfl⟩
    · exact ⟨List.prefix_rfl, rfl⟩

namespace WebRtcTransport

variable {bridge : Bridge} {s s' : WebRtcTransport}

/-- The message numbers have been given once each, and the next one is new. -/
structure Numbered (s : WebRtcTransport) : Prop where
  pos : 0 < s.nextMessageId.toNat
  below : ∀ channel, ∀ f ∈ (s.lane channel).sent, f.1.toNat < s.nextMessageId.toNat
  distinct : ∀ channel, ((s.lane channel).sent.map Prod.fst).Nodup

/-- What a call does to a channel: more is handed over, and at most one frame is new. -/
structure Extends (s s' : WebRtcTransport) (channel : Channel) : Prop where
  handed : (s.lane channel).handed <+: (s'.lane channel).handed
  sent : (s'.lane channel).sent = (s.lane channel).sent ∨
    ∃ wire, (s'.lane channel).sent = (s.lane channel).sent ++ [(s.nextMessageId, wire)]

theorem pump_grows (bridge : Bridge) (s : WebRtcTransport) :
    (pump bridge s).2.nextMessageId = s.nextMessageId ∧ ∀ channel,
      (s.lane channel).handed <+: ((pump bridge s).2.lane channel).handed ∧
        ((pump bridge s).2.lane channel).sent = (s.lane channel).sent := by
  have hcontrol := pumpLane_grows bridge s.control.outgoing s.wireError s.control s.asked
  rw [pump]
  rcases hrun : pumpLane bridge s.wireError s.control.outgoing s.control s.asked with
    ⟨e | u, control, asked⟩
  · rw [hrun] at hcontrol
    refine ⟨rfl, fun channel => ?_⟩
    cases channel with
    | control => exact hcontrol
    | bulk => exact ⟨List.prefix_rfl, rfl⟩
  · rw [hrun] at hcontrol
    refine ⟨rfl, fun channel => ?_⟩
    cases channel with
    | control => exact hcontrol
    | bulk => exact pumpLane_grows bridge s.bulk.outgoing s.wireError s.bulk asked

/-- The locked part of `Send` gives the frame the next number, or changes no queue. -/
theorem wp_queueFrame_numbers (channel : Channel) (wire : Bytes) (s : WebRtcTransport) :
    Exec.Wp (queueFrame channel wire)
      (fun _ s' => s'.nextMessageId = s.nextMessageId + 1 ∧
        (s'.lane channel).handed = (s.lane channel).handed ∧
        (s'.lane channel).sent = (s.lane channel).sent ++ [(s.nextMessageId, wire)] ∧
        ∀ other ≠ channel, s'.lane other = s.lane other)
      (fun _ s' => (s'.nextMessageId = s.nextMessageId ∨
        s'.nextMessageId = s.nextMessageId + 1) ∧ ∀ channel, s'.lane channel = s.lane channel)
      s := by
  rw [queueFrame, Exec.wp_bind, Exec.wp_state]
  refine Exec.wp_ite (fun _ => ⟨.inl rfl, fun _ => rfl⟩) fun _ => ?_
  rw [Exec.wp_bind, Exec.wp_update, Exec.wp_bind]
  refine Exec.wp_check (fun _ _ => ⟨.inr rfl, fun channel => by cases channel <;> rfl⟩)
    fun fragments _ => ?_
  rw [Exec.wp_update]
  obtain ⟨hhanded, hsent⟩ := Lane.foldl_push_frame fragments (s.lane channel)
  cases channel with
  | control =>
    refine ⟨rfl, hhanded, congrArg (· ++ [(s.nextMessageId, wire)]) hsent, fun other hne => ?_⟩
    cases other with
    | control => exact absurd rfl hne
    | bulk => rfl
  | bulk =>
    refine ⟨rfl, hhanded, congrArg (· ++ [(s.nextMessageId, wire)]) hsent, fun other hne => ?_⟩
    cases other with
    | control => rfl
    | bulk => exact absurd rfl hne

/-- The next number is used, or passed over. -/
theorem Numbered.next (h : s.Numbered) (hroom : s.nextMessageId.toNat + 1 < 2 ^ 64)
    (hnext : s'.nextMessageId = s.nextMessageId + 1)
    (hextends : ∀ channel, Extends s s' channel) : s'.Numbered := by
  have hnext : s'.nextMessageId.toNat = s.nextMessageId.toNat + 1 := by
    rw [hnext, UInt64.toNat_add]
    exact Nat.mod_eq_of_lt hroom
  refine ⟨by omega, fun channel f hf => ?_, fun channel => ?_⟩
  · rcases (hextends channel).sent with hsent | ⟨wire, hsent⟩
    · rw [hsent] at hf
      exact (h.below channel f hf).trans (by omega)
    · rw [hsent] at hf
      rcases List.mem_append.mp hf with hf | hf
      · exact (h.below channel f hf).trans (by omega)
      · rw [List.mem_singleton.mp hf, hnext]
        exact Nat.lt_succ_self _
  · rcases (hextends channel).sent with hsent | ⟨wire, hsent⟩
    · rw [hsent]
      exact h.distinct channel
    · rw [hsent, List.map_append, List.nodup_append]
      refine ⟨h.distinct channel, List.nodup_singleton _, fun id hid id' hid' => ?_⟩
      rw [List.mem_singleton.mp hid']
      rintro rfl
      obtain ⟨f, hf, hfid⟩ := List.mem_map.mp hid
      exact absurd (hfid ▸ h.below channel f hf) (lt_irrefl _)

/-- No number is used. -/
theorem Numbered.same (h : s.Numbered) (hnext : s'.nextMessageId = s.nextMessageId)
    (hsent : ∀ channel, (s'.lane channel).sent = (s.lane channel).sent) : s'.Numbered := by
  refine ⟨hnext ▸ h.pos, fun channel f hf => ?_, fun channel => ?_⟩
  · rw [hnext]
    exact h.below channel f (hsent channel ▸ hf)
  · rw [hsent]
    exact h.distinct channel

/-- **A call** keeps the numbers apart, and extends what is on the channels.  Numbers are given in
order, so they are distinct until the counter is used up. -/
theorem numbered_step (bridge : Bridge) (h : s.Numbered) (call : Call)
    (hroom : ∀ channel wire, call = .send channel wire → s.nextMessageId.toNat + 1 < 2 ^ 64) :
    (step bridge s call).Numbered ∧ ∀ channel, Extends s (step bridge s call) channel := by
  cases call with
  | pump =>
    obtain ⟨hnext, hlanes⟩ := pump_grows bridge s
    exact ⟨h.same hnext fun channel => (hlanes channel).2,
      fun channel => ⟨(hlanes channel).1, .inl (hlanes channel).2⟩⟩
  | send channel wire =>
    have hroom := hroom channel wire rfl
    have hsame : ∀ other, Extends s s other := fun other => ⟨List.prefix_rfl, .inl rfl⟩
    refine Exec.of_wp (I := fun s' => s'.Numbered ∧ ∀ channel, Extends s s' channel) ?_
    rw [send]
    refine Exec.wp_ite (fun _ => ⟨h, hsame⟩) fun _ => ?_
    rw [Exec.wp_bind]
    refine Exec.wp_mono (wp_queueFrame_numbers channel wire s) (fun _ s₁ h₁ => Exec.wp_of ?_)
      fun _ s₁ h₁ => ?_
    · obtain ⟨hnext, hhanded, hsent, hothers⟩ := h₁
      obtain ⟨hnext', hlanes⟩ := pump_grows bridge s₁
      have hextends : ∀ other, Extends s (pump bridge s₁).2 other := by
        intro other
        by_cases hother : other = channel
        · subst hother
          exact ⟨hhanded ▸ (hlanes other).1, .inr ⟨wire, (hlanes other).2.trans hsent⟩⟩
        · have hlane := hlanes other
          rw [hothers other hother] at hlane
          exact ⟨hlane.1, .inl hlane.2⟩
      exact ⟨h.next hroom (hnext'.trans hnext) hextends, hextends⟩
    · obtain ⟨hnext, hlanes⟩ := h₁
      have hextends : ∀ other, Extends s s₁ other := fun other => by
        refine ⟨?_, .inl ?_⟩
        · rw [hlanes]
        · rw [hlanes]
      refine ⟨hnext.elim (fun hnext => h.same hnext fun other => ?_)
        fun hnext => h.next hroom hnext hextends, hextends⟩
      rw [hlanes]

end WebRtcTransport

/-! ## One channel

The receiving end of one channel, with the reassembler for it.  Of the ordered channel a prefix of
the fragments has arrived, so at most one frame is incomplete; of the other any part of them. -/

section Frames

variable {frames before rest : List Outgoing} {part arrived : List Bytes}

/-- **The complete frames** are those before the one of which a part has arrived.  Because the
fragments of an ordered channel come frame after frame. -/
theorem filter_complete (hids : (frames.map Outgoing.id).Nodup) (hframes : frames = before ++ rest)
    (harrived : ∀ x, x ∈ arrived ↔ x ∈ before.flatMap Outgoing.fragments ++ part)
    (hpart : ∀ f later, rest = f :: later →
      part <+: f.fragments ∧ part.length < f.fragments.length) :
    frames.filter (fun f => decide (f.Complete arrived)) = before := by
  have hnodup := nodup_fragments hids
  subst hframes
  rw [List.flatMap_append, List.nodup_append] at hnodup
  obtain ⟨-, hrest, hdisjoint⟩ := hnodup
  rw [List.filter_append, List.filter_eq_self.mpr, List.filter_eq_nil_iff.mpr, List.append_nil]
  · intro f hf hcomplete
    have hcomplete := of_decide_eq_true hcomplete
    have hinside : ∀ x ∈ f.fragments, x ∈ part := by
      intro x hx
      rcases List.mem_append.mp ((harrived x).mp (hcomplete x hx)) with hbefore | hpart
      · exact absurd rfl (hdisjoint x hbefore x (List.mem_flatMap.mpr ⟨f, hf, hx⟩))
      · exact hpart
    cases hcase : rest with
    | nil => rw [hcase] at hf; cases hf
    | cons g later =>
      obtain ⟨hfront, hlength⟩ := hpart g later hcase
      rw [hcase] at hf
      rcases List.mem_cons.mp hf with rfl | hf
      · have hle := (f.nodup_fragments.subperm hinside).length_le
        omega
      · rw [hcase, List.flatMap_cons, List.nodup_append] at hrest
        have hfirst : f.fragment 0 ∈ f.fragments := Outgoing.mem_fragments.mpr ⟨0, f.count_pos, rfl⟩
        exact hrest.2.2 _ (hfront.subset (hinside _ hfirst)) _
          (List.mem_flatMap.mpr ⟨f, hf, hfirst⟩) rfl
  · intro f hf
    refine decide_eq_true fun x hx => (harrived x).mpr (List.mem_append_left _ ?_)
    exact List.mem_flatMap.mpr ⟨f, hf, hx⟩

variable {f : Outgoing} {x : Bytes}

/-- The frame that a fragment completes is one more complete frame. -/
theorem filter_complete_perm (hids : (frames.map Outgoing.id).Nodup) (hf : f ∈ frames)
    (hopen : ¬ f.Complete arrived) (hc : f.Complete (x :: arrived)) :
    (frames.filter fun g => decide (g.Complete (x :: arrived))).Perm
      (f :: frames.filter fun g => decide (g.Complete arrived)) := by
  have hnodup : frames.Nodup := List.Nodup.of_map _ hids
  refine (List.perm_ext_iff_of_nodup (hnodup.filter _) ?_).mpr fun g => ?_
  · refine List.nodup_cons.mpr ⟨fun hmem => ?_, hnodup.filter _⟩
    exact hopen (of_decide_eq_true (List.mem_filter.mp hmem).2)
  · rw [List.mem_cons, List.mem_filter, List.mem_filter, decide_eq_true_eq, decide_eq_true_eq]
    constructor
    · rintro ⟨hg, hgc⟩
      by_cases hgopen : g.Complete arrived
      · exact .inr ⟨hg, hgopen⟩
      · exact .inl (Outgoing.eq_of_mem_fragments hids hg hf
          (Outgoing.mem_fragments_of_complete hgopen hgc)
          (Outgoing.mem_fragments_of_complete hopen hc))
    · rintro (rfl | ⟨hg, hgc⟩)
      · exact ⟨hf, hc⟩
      · exact ⟨hg, Outgoing.complete_cons hgc x⟩

/-- A fragment that does not complete its frame completes none. -/
theorem filter_complete_cons (hids : (frames.map Outgoing.id).Nodup) (hf : f ∈ frames)
    (hx : x ∈ f.fragments) (hc : ¬ f.Complete (x :: arrived)) :
    (frames.filter fun g => decide (g.Complete (x :: arrived))) =
      frames.filter fun g => decide (g.Complete arrived) := by
  refine List.filter_congr fun g hg => decide_eq_decide.mpr ⟨fun hgc => ?_, fun hgc =>
    Outgoing.complete_cons hgc x⟩
  by_contra hgopen
  refine hc ?_
  rwa [Outgoing.eq_of_mem_fragments hids hf hg hx
    (Outgoing.mem_fragments_of_complete hgopen hgc)]

end Frames

/-- A channel carries the frames, and the complete ones have come out. -/
structure Carried (lane : Lane) (inbound : Inbound) (offered : List Bytes)
    (frames : List Outgoing) : Prop where
  sent : frames.map (fun f => (f.id, f.wire)) = lane.sent
  ids : (frames.map Outgoing.id).Nodup
  stream : lane.handed ++ lane.outgoing = frames.flatMap Outgoing.fragments
  assembles : Assembles frames inbound.arrived inbound.reassembly
  once : inbound.arrived.Nodup
  handed : ∀ x ∈ inbound.arrived, x ∈ lane.handed
  offered : offered.Perm
    ((frames.filter fun f => decide (f.Complete inbound.arrived)).map Outgoing.wire)

/-- An ordered channel carries the frames: what has arrived is the beginning of what has been handed
over, and the frames have come out in order. -/
structure InOrder (lane : Lane) (inbound : Inbound) (offered : List Bytes)
    (frames : List Outgoing) : Prop where
  arrived : inbound.arrived.reverse <+: lane.handed
  offered : offered =
    (frames.filter fun f => decide (f.Complete inbound.arrived)).map Outgoing.wire

namespace Carried

variable {lane lane' : Lane} {inbound : Inbound} {offered : List Bytes} {frames : List Outgoing}
  {x : Bytes} {now : Nat}

/-- The frame that a handed fragment belongs to. -/
theorem exists_frame (h : Carried lane inbound offered frames) (hx : x ∈ lane.handed) :
    ∃ f ∈ frames, x ∈ f.fragments :=
  List.mem_flatMap.mp (h.stream ▸ List.mem_append_left _ hx)

/-- A frame whose number is new. -/
theorem fresh (h : Carried lane inbound offered frames) {g : Outgoing}
    (hg : g.id ∉ frames.map Outgoing.id) (i : Nat) : g.fragment i ∉ inbound.arrived := by
  intro hmem
  obtain ⟨f, hf, hx⟩ := h.exists_frame (h.handed _ hmem)
  obtain ⟨j, -, heq⟩ := Outgoing.mem_fragments.mp hx
  exact hg (List.mem_map.mpr ⟨f, hf, Outgoing.id_eq_of_fragment_eq heq⟩)

/-- More is handed over. -/
theorem hand (h : Carried lane inbound offered frames) (hsent : lane'.sent = lane.sent)
    (hhanded : lane.handed <+: lane'.handed)
    (hstream : lane'.handed ++ lane'.outgoing = frames.flatMap Outgoing.fragments) :
    Carried lane' inbound offered frames :=
  { h with
    sent := h.sent.trans hsent.symm
    stream := hstream
    handed := fun x hx => hhanded.subset (h.handed x hx) }

theorem filter_append_fresh (h : Carried lane inbound offered frames) {g : Outgoing}
    (hg : g.id ∉ frames.map Outgoing.id) :
    ((frames ++ [g]).filter fun f => decide (f.Complete inbound.arrived)) =
      frames.filter fun f => decide (f.Complete inbound.arrived) := by
  have hopen : ¬ g.Complete inbound.arrived := fun hc =>
    h.fresh hg 0 (Outgoing.complete_iff.mp hc 0 g.count_pos)
  rw [List.filter_append, List.filter_singleton, decide_eq_false hopen]
  exact List.append_nil _

/-- A frame is sent. -/
theorem send (h : Carried lane inbound offered frames) {g : Outgoing}
    (hg : g.id ∉ frames.map Outgoing.id)
    (hsent : lane'.sent = lane.sent ++ [(g.id, g.wire)])
    (hhanded : lane.handed <+: lane'.handed)
    (hstream : lane'.handed ++ lane'.outgoing = (frames ++ [g]).flatMap Outgoing.fragments) :
    Carried lane' inbound offered (frames ++ [g]) where
  sent := by rw [List.map_append, h.sent, hsent]; rfl
  ids := by
    rw [List.map_append, List.nodup_append]
    refine ⟨h.ids, List.nodup_singleton _, fun id hid id' hid' => ?_⟩
    rw [List.mem_singleton.mp hid']
    rintro rfl
    exact hg hid
  stream := hstream
  assembles :=
    { pending := fun id found hfind => by
        obtain ⟨f, hf, hrest⟩ := h.assembles.pending id found hfind
        exact ⟨f, List.mem_append_left _ hf, hrest⟩
      absent := fun f hf hfind => by
        rcases List.mem_append.mp hf with hf | hf
        · exact h.assembles.absent f hf hfind
        · rw [List.mem_singleton.mp hf]
          exact .inr fun i _ => h.fresh hg i
      bytes := h.assembles.bytes }
  once := h.once
  handed := fun x hx => hhanded.subset (h.handed x hx)
  offered := by
    rw [h.filter_append_fresh hg]
    exact h.offered

/-- **A fragment arrives.** -/
theorem arrive (h : Carried lane inbound offered frames) (hx : x ∈ lane.handed)
    (hnew : x ∉ inbound.arrived) (hroom : Roomy inbound.reassembly x now) :
    ∃ result reassembly, FrameReassembler.accept x now inbound.reassembly =
        (.ok result, reassembly) ∧
      Carried lane ⟨reassembly, x :: inbound.arrived⟩ (offered ++ result.toList) frames ∧
      ∃ f ∈ frames, x ∈ f.fragments ∧ ¬ f.Complete inbound.arrived ∧
        result = if f.Complete (x :: inbound.arrived) then some f.wire else none := by
  obtain ⟨f, hf, hxf⟩ := h.exists_frame hx
  have hopen : ¬ f.Complete inbound.arrived := fun hc => hnew (hc x hxf)
  obtain ⟨i, hi, rfl⟩ := Outgoing.mem_fragments.mp hxf
  obtain ⟨reassembly, haccept, hassembles, -⟩ := h.assembles.accept h.ids hf hi hopen hroom
  refine ⟨_, reassembly, haccept, ⟨h.sent, h.ids, h.stream, hassembles,
    List.nodup_cons.mpr ⟨hnew, h.once⟩, fun y hy => ?_, ?_⟩, f, hf, hxf, hopen, rfl⟩
  · rcases List.mem_cons.mp hy with rfl | hy
    · exact hx
    · exact h.handed y hy
  · by_cases hc : f.Complete (f.fragment i :: inbound.arrived)
    · rw [if_pos hc]
      refine (List.perm_append_singleton f.wire offered).trans ((h.offered.cons f.wire).trans ?_)
      exact ((filter_complete_perm h.ids hf hopen hc).map Outgoing.wire).symm
    · rw [if_neg hc]
      rw [filter_complete_cons h.ids hf hxf hc]
      exact (List.append_nil offered).symm ▸ h.offered

end Carried

/-- The next of a list joins a prefix of it. -/
theorem prefix_next {α : Type} {A l : List α} {x : α} (h : A <+: l) (hx : l[A.length]? = some x) :
    A ++ [x] <+: l := by
  obtain ⟨t, rfl⟩ := h
  rw [List.getElem?_append_right le_rfl, Nat.sub_self] at hx
  cases t with
  | nil => cases hx
  | cons y t =>
    obtain rfl : y = x := Option.some.inj hx
    exact ⟨t, by rw [List.append_assoc]; rfl⟩

namespace InOrder

variable {lane lane' : Lane} {inbound : Inbound} {offered : List Bytes} {frames : List Outgoing}
  {x : Bytes} {now : Nat}

/-- What has arrived and what arrives next are the beginning of the stream. -/
theorem next (h : InOrder lane inbound offered frames) (hc : Carried lane inbound offered frames)
    (hx : lane.handed[inbound.arrived.length]? = some x) :
    inbound.arrived.reverse ++ [x] <+: frames.flatMap Outgoing.fragments := by
  rw [← hc.stream]
  refine (prefix_next h.arrived ?_).trans (List.prefix_append _ _)
  rwa [List.length_reverse]

theorem new (h : InOrder lane inbound offered frames) (hc : Carried lane inbound offered frames)
    (hx : lane.handed[inbound.arrived.length]? = some x) : x ∉ inbound.arrived := by
  have hnodup := (nodup_fragments hc.ids).sublist (h.next hc hx).sublist
  rw [List.nodup_append] at hnodup
  intro hmem
  exact hnodup.2.2 x (List.mem_reverse.mpr hmem) x (List.mem_singleton_self x) rfl

/-- **The limits of reassembly are kept**: at most one frame is pending, and if there is one, the
next fragment is one of it. -/
theorem room (h : InOrder lane inbound offered frames) (hc : Carried lane inbound offered frames)
    (hx : lane.handed[inbound.arrived.length]? = some x)
    (hfresh : ∀ entry ∈ inbound.reassembly.pending.entries,
      now ≤ entry.2.touched + partialLifetime) : Roomy inbound.reassembly x now := by
  refine ⟨hfresh, fun hnone => ?_⟩
  obtain ⟨before, part, rest, hframes, hsplit, hpart⟩ :=
    split_of_prefix ((List.prefix_append _ _).trans (h.next hc hx))
  have hids := hc.ids
  have hnext := h.next hc hx
  have hempty : inbound.reassembly.pending.entries = [] := by
    refine List.eq_nil_iff_forall_not_mem.mpr fun entry hentry => ?_
    obtain ⟨g, hg, hid, -, hopen, i, hi, hmem⟩ :=
      hc.assembles.pending entry.1 entry.2 (OrdMap.find_eq_some_iff.mpr hentry)
    have hgi : g.fragment i ∈ g.fragments := Outgoing.mem_fragments.mpr ⟨i, hi, rfl⟩
    have hstarted : g.fragment i ∈ before.flatMap Outgoing.fragments ++ part :=
      hsplit ▸ List.mem_reverse.mpr hmem
    -- The frame is not one of those before the part, for these are complete.
    have hinside : g.fragment i ∈ part := by
      refine (List.mem_append.mp hstarted).resolve_left fun hbefore => hopen fun y hy => ?_
      obtain ⟨f, hf, hfi⟩ := List.mem_flatMap.mp hbefore
      obtain rfl : f = g := Outgoing.eq_of_mem_fragments hids
        (hframes ▸ List.mem_append_left _ hf) hg hfi hgi
      refine List.mem_reverse.mp (hsplit ▸ List.mem_append_left _ ?_)
      exact List.mem_flatMap.mpr ⟨f, hf, hy⟩
    cases hrest : rest with
    | nil =>
      rw [hframes, hrest, List.append_nil, hsplit, List.append_assoc] at hnext
      have hlength := hnext.length_le
      rw [List.length_append, List.length_append, List.length_singleton] at hlength
      omega
    | cons f later =>
      obtain ⟨hfront, hlength⟩ := hpart f later hrest
      obtain rfl : f = g := Outgoing.eq_of_mem_fragments hids
        (by rw [hframes, hrest]; simp) hg (hfront.subset hinside) hgi
      rw [hframes, hrest, hsplit, List.flatMap_append, List.append_assoc,
        List.prefix_append_right_inj, List.flatMap_cons] at hnext
      have hxf : x ∈ f.fragments := by
        refine (List.prefix_of_prefix_length_le hnext (List.prefix_append _ _) ?_).subset
          (List.mem_append_right _ (List.mem_singleton_self x))
        rw [List.length_append, List.length_singleton]
        omega
      obtain ⟨j, -, rfl⟩ := Outgoing.mem_fragments.mp hxf
      rw [Outgoing.fragmentId_fragment, hid] at hnone
      cases hnone.symm.trans (OrdMap.find_eq_some_iff.mpr hentry)
  have hbytes : inbound.reassembly.bytes = 0 := by
    rw [hc.assembles.bytes, OrdMap.total, hempty]
    rfl
  obtain ⟨f, -, hxf⟩ := hc.exists_frame (List.mem_of_getElem? hx)
  obtain ⟨i, -, rfl⟩ := Outgoing.mem_fragments.mp hxf
  rw [hempty, hbytes, Outgoing.fragmentTotal_fragment]
  exact ⟨by decide, f.length_le.trans (by decide)⟩

theorem hand (h : InOrder lane inbound offered frames) (hhanded : lane.handed <+: lane'.handed) :
    InOrder lane' inbound offered frames :=
  ⟨h.arrived.trans hhanded, h.offered⟩

theorem send (h : InOrder lane inbound offered frames) (hc : Carried lane inbound offered frames)
    {g : Outgoing} (hg : g.id ∉ frames.map Outgoing.id) (hhanded : lane.handed <+: lane'.handed) :
    InOrder lane' inbound offered (frames ++ [g]) :=
  ⟨h.arrived.trans hhanded, by rw [hc.filter_append_fresh hg]; exact h.offered⟩

/-- The complete frames are the first ones. -/
theorem complete_front (hc : Carried lane inbound offered frames) {arrived : List Bytes}
    (harrived : arrived.reverse <+: frames.flatMap Outgoing.fragments) :
    (frames.filter fun f => decide (f.Complete arrived)) <+: frames := by
  obtain ⟨before, part, rest, hframes, hsplit, hpart⟩ := split_of_prefix harrived
  rw [filter_complete hc.ids hframes (fun y => by rw [← hsplit, List.mem_reverse]) hpart]
  exact hframes ▸ List.prefix_append _ _

/-- **A fragment arrives in order**, and a frame that comes out is the next one. -/
theorem arrive (h : InOrder lane inbound offered frames) (hc : Carried lane inbound offered frames)
    (hx : lane.handed[inbound.arrived.length]? = some x) {f : Outgoing} (hf : f ∈ frames)
    (hxf : x ∈ f.fragments) (hopen : ¬ f.Complete inbound.arrived)
    (reassembly : FrameReassembler) :
    InOrder lane ⟨reassembly, x :: inbound.arrived⟩
      (offered ++ (if f.Complete (x :: inbound.arrived) then some f.wire else none).toList)
      frames := by
  have hnext : (x :: inbound.arrived).reverse <+: frames.flatMap Outgoing.fragments := by
    rw [List.reverse_cons]
    exact h.next hc hx
  constructor
  · rw [List.reverse_cons]
    refine prefix_next h.arrived ?_
    rwa [List.length_reverse]
  · show _ = (frames.filter fun g => decide (g.Complete (x :: inbound.arrived))).map Outgoing.wire
    by_cases hcomplete : f.Complete (x :: inbound.arrived)
    · have hperm := filter_complete_perm hc.ids hf hopen hcomplete
      have hold := complete_front hc
        ((List.prefix_append _ _).trans (List.reverse_cons ▸ hnext))
      obtain ⟨t, ht⟩ := List.prefix_of_prefix_length_le hold (complete_front hc hnext)
        (by rw [hperm.length_eq, List.length_cons]; exact Nat.le_succ _)
      rw [← ht] at hperm
      have ht' : t = [f] := by
        have hlist := (List.perm_append_comm.trans hperm)
        have hcons : (t ++ frames.filter fun g => decide (g.Complete inbound.arrived)).Perm
            ([f] ++ frames.filter fun g => decide (g.Complete inbound.arrived)) := hlist
        exact List.perm_singleton.mp ((List.perm_append_right_iff _).mp hcons)
      rw [if_pos hcomplete, ← ht, ht', List.map_append, ← h.offered]
      rfl
    · rw [if_neg hcomplete, filter_complete_cons hc.ids hf hxf hcomplete, ← h.offered]
      exact List.append_nil _

end InOrder

/-! ## The invariant -/

theorem WebRtcTransport.Sound.lane {s : WebRtcTransport} (h : s.Sound) (channel : Channel) :
    (s.lane channel).Sound := by
  cases channel with
  | control => exact h.control
  | bulk => exact h.bulk

/-- What is queued and has been handed over are the fragments of the frames sent. -/
theorem stream_of_sound {lane : Lane} (h : lane.Sound) {frames : List Outgoing}
    (hsent : frames.map (fun f => (f.id, f.wire)) = lane.sent) :
    lane.handed ++ lane.outgoing = frames.flatMap Outgoing.fragments := by
  rw [h.conserved, ← hsent, List.flatMap_map]
  rfl

theorem framesOn_append (channel : Channel) (l l' : List (Channel × Bytes)) :
    framesOn channel (l ++ l') = framesOn channel l ++ framesOn channel l' := by
  rw [framesOn, List.filter_append, List.map_append]
  rfl

theorem framesOn_self (channel : Channel) (new : Option Bytes) :
    framesOn channel (new.toList.map (Prod.mk channel)) = new.toList := by
  cases new <;> simp [framesOn]

theorem framesOn_other {channel other : Channel} (h : other ≠ channel) (new : Option Bytes) :
    framesOn other (new.toList.map (Prod.mk channel)) = [] := by
  cases new with
  | none => rfl
  | some frame => simp [framesOn, h.symm]

namespace Link

variable {bridge : Bridge} {w : Link}

/-- A channel of the link carries some frames, in order if it is the control channel. -/
def Carries (w : Link) (channel : Channel) : Prop :=
  ∃ frames, Carried (w.sender.lane channel) (w.inbound channel) (framesOn channel w.offered)
      frames ∧
    (channel = .control → InOrder (w.sender.lane channel) (w.inbound channel)
      (framesOn channel w.offered) frames)

/-- The invariant of a link: the sender, both channels and the last queue agree on every frame. -/
structure Sound (w : Link) : Prop where
  sender : w.sender.Sound
  numbered : w.sender.Numbered
  carries : ∀ channel, w.Carries channel
  quiet : w.wireError = none
  queue : w.queue.Sound
  callback : w.queue.callback = true
  delivered : w.delivered <+: w.offered
  waiting : w.queue.overflow = false → w.delivered ++ w.queue.received = w.offered

theorem Sound.empty : ({} : Link).Sound where
  sender := .empty
  numbered := by
    refine ⟨by decide, fun channel f hf => ?_, fun channel => ?_⟩
    · cases channel <;> cases hf
    · cases channel <;> exact List.nodup_nil
  carries channel := by
    refine ⟨[], ⟨?_, List.nodup_nil, ?_, ?_, ?_, ?_, ?_⟩, fun _ => ⟨?_, ?_⟩⟩ <;>
      cases channel <;>
      first
        | rfl
        | exact Assembles.start []
        | exact List.nodup_nil
        | exact List.Perm.nil
        | exact List.nil_prefix
        | exact fun x hx => absurd hx List.not_mem_nil
  quiet := rfl
  queue := ⟨rfl, by decide⟩
  callback := rfl
  delivered := List.prefix_rfl
  waiting _ := rfl

/-- A call of the sender. -/
theorem Sound.call (hbridge : ∀ i, bridge.accepts i = true) (h : w.Sound)
    (call : WebRtcTransport.Call) (hsteady : w.Steady (.call call)) :
    (w.step bridge (.call call)).Sound := by
  have hroom : ∀ channel wire, call = .send channel wire →
      w.sender.nextMessageId.toNat + 1 < 2 ^ 64 := by
    rintro channel wire rfl
    exact hsteady
  have hsound := WebRtcTransport.sound_step hbridge w.sender call h.sender
  obtain ⟨hnumbered, hextends⟩ := WebRtcTransport.numbered_step bridge h.numbered call hroom
  refine { h with sender := hsound, numbered := hnumbered, carries := fun channel => ?_ }
  obtain ⟨frames, hc, ho⟩ := h.carries channel
  have hlane := hsound.lane channel
  rcases (hextends channel).sent with hsent | ⟨wire, hsent⟩
  · have hhanded := (hextends channel).handed
    exact ⟨frames, hc.hand hsent hhanded (stream_of_sound hlane (hc.sent.trans hsent.symm)),
      fun hcontrol => (ho hcontrol).hand hhanded⟩
  · have hframe := hlane.frames (w.sender.nextMessageId, wire)
      (hsent ▸ List.mem_append_right _ (List.mem_singleton_self _))
    rw [fragmentFrame] at hframe
    split at hframe
    · cases hframe
    rename_i hadmitted
    rw [not_or, not_or, not_lt] at hadmitted
    have hfresh : w.sender.nextMessageId ∉ frames.map Outgoing.id := by
      intro hmem
      obtain ⟨f, hf, hid⟩ := List.mem_map.mp hmem
      have hbelow := h.numbered.below channel (f.id, f.wire)
        (hc.sent ▸ List.mem_map.mpr ⟨f, hf, rfl⟩)
      rw [hid] at hbelow
      exact lt_irrefl _ hbelow
    have hhanded := (hextends channel).handed
    let g : Outgoing :=
      ⟨w.sender.nextMessageId, wire, hadmitted.1, hadmitted.2.1, hadmitted.2.2⟩
    refine ⟨frames ++ [g], hc.send (g := g) hfresh hsent hhanded (stream_of_sound hlane ?_),
      fun hcontrol => (ho hcontrol).send (g := g) hc hfresh hhanded⟩
    rw [List.map_append, hc.sent, hsent]
    rfl

/-- A fragment has been taken, and a frame has come out or not. -/
theorem Sound.update (h : w.Sound) (channel : Channel) {inbound : Inbound} {new : Option Bytes}
    {queue : QueuedPeerTransport} {frames : List Outgoing}
    (hcarried : Carried (w.sender.lane channel) inbound
      (framesOn channel w.offered ++ new.toList) frames)
    (horder : channel = .control → InOrder (w.sender.lane channel) inbound
      (framesOn channel w.offered ++ new.toList) frames)
    (hqueue : queue.Sound) (hcallback : queue.callback = true)
    (hwaiting : queue.overflow = false → w.delivered ++ queue.received =
      w.offered ++ new.toList.map (Prod.mk channel)) :
    Sound { w.setInbound channel inbound with
      queue := queue
      offered := w.offered ++ new.toList.map (Prod.mk channel) } := by
  have hself : framesOn channel (w.offered ++ new.toList.map (Prod.mk channel)) =
      framesOn channel w.offered ++ new.toList := by
    rw [framesOn_append, framesOn_self]
  -- the frame is on one channel, and the other one does not see it
  have hother : ∀ other ≠ channel,
      framesOn other (w.offered ++ new.toList.map (Prod.mk channel)) =
        framesOn other w.offered := by
    intro other hne
    rw [framesOn_append, framesOn_other hne, List.append_nil]
  have hcarries := h.carries
  cases channel with
  | control =>
    refine ⟨h.sender, h.numbered, fun other => ?_, h.quiet, hqueue, hcallback,
      h.delivered.trans (List.prefix_append _ _), hwaiting⟩
    cases other with
    | control =>
      refine ⟨frames, ?_, fun hcontrol => ?_⟩
      · exact hself ▸ hcarried
      · exact hself ▸ horder hcontrol
    | bulk =>
      obtain ⟨frames', hc, ho⟩ := hcarries .bulk
      rw [← hother .bulk (by decide)] at hc ho
      exact ⟨frames', hc, ho⟩
  | bulk =>
    refine ⟨h.sender, h.numbered, fun other => ?_, h.quiet, hqueue, hcallback,
      h.delivered.trans (List.prefix_append _ _), hwaiting⟩
    cases other with
    | bulk =>
      refine ⟨frames, ?_, fun hcontrol => by cases hcontrol⟩
      exact hself ▸ hcarried
    | control =>
      obtain ⟨frames', hc, ho⟩ := hcarries .control
      rw [← hother .control (by decide)] at hc ho
      exact ⟨frames', hc, ho⟩

/-- A fragment arrives. -/
theorem Sound.arrive (h : w.Sound) {channel : Channel} {x : Bytes} {now : Nat}
    (hflight : w.InFlight x channel) (hsteady : w.Steady (.arrive channel x now)) :
    (w.receive channel x now).Sound := by
  obtain ⟨frames, hc, ho⟩ := h.carries channel
  -- on the control channel the next fragment arrives, on the bulk channel any that has not yet
  have harrival : x ∈ (w.sender.lane channel).handed ∧ x ∉ (w.inbound channel).arrived ∧
      Roomy (w.inbound channel).reassembly x now := by
    cases channel with
    | control =>
      exact ⟨List.mem_of_getElem? hflight, (ho rfl).new hc hflight,
        (ho rfl).room hc hflight hsteady⟩
    | bulk => exact ⟨hflight.1, hflight.2, hsteady⟩
  obtain ⟨hx, hnew, hroom⟩ := harrival
  obtain ⟨result, reassembly, haccept, hc', f, hf, hxf, hopen, hresult⟩ := hc.arrive hx hnew hroom
  have horder : channel = .control → InOrder (w.sender.lane channel)
      ⟨reassembly, x :: (w.inbound channel).arrived⟩
      (framesOn channel w.offered ++ result.toList) frames := by
    rintro rfl
    rw [hresult]
    exact (ho rfl).arrive hc hflight hf hxf hopen reassembly
  rw [receive, haccept]
  cases result with
  | none =>
    have hupdate := h.update channel hc' horder h.queue h.callback
      fun hoverflow => (h.waiting hoverflow).trans (List.append_nil _).symm
    cases channel <;> simpa [setInbound] using hupdate
  | some frame =>
    have hframe : frame.length ≤ Wire.maxFrameSize := by
      split at hresult
      · rw [Option.some.inj hresult]
        exact f.length_le
      · cases hresult
    have hcallback : (w.queue.receive channel frame).callback = true := by
      rw [QueuedPeerTransport.receive]
      split <;> exact h.callback
    have hwaiting : (w.queue.receive channel frame).overflow = false →
        w.delivered ++ (w.queue.receive channel frame).received =
          w.offered ++ (some frame).toList.map (Prod.mk channel) := by
      intro hoverflow
      rw [QueuedPeerTransport.receive] at hoverflow ⊢
      split at hoverflow
      · cases hoverflow
      · rename_i hroom
        rw [if_neg hroom]
        show w.delivered ++ (w.queue.received ++ [(channel, frame)]) = _
        rw [← List.append_assoc, h.waiting hoverflow]
        rfl
    have hupdate := h.update channel hc' horder (h.queue.receive channel hframe) hcallback hwaiting
    cases channel <;> exact hupdate

/-- The session takes what is waiting. -/
theorem Sound.pumpReceived (h : w.Sound) (inner : Except Error Unit) :
    (w.step bridge (.pumpReceived inner)).Sound := by
  have hwp : Exec.Wp (QueuedPeerTransport.pumpReceived inner)
      (fun calls queue => w.queue.overflow = false ∧ calls = w.queue.received ∧
        queue = { w.queue with received := [], receivedBytes := 0 })
      (fun _ queue => queue = w.queue) w.queue := by
    rw [QueuedPeerTransport.pumpReceived, Exec.wp_bind]
    refine Exec.wp_check (fun _ _ => rfl) fun _ _ => ?_
    rw [Exec.wp_bind, Exec.wp_state]
    refine Exec.wp_ite (fun _ => rfl) fun hoverflow => ?_
    rw [Exec.wp_bind, Exec.wp_update, Exec.wp_pure, if_pos h.callback]
    exact ⟨Bool.eq_false_of_not_eq_true hoverflow, rfl, rfl⟩
  rw [Exec.Wp] at hwp
  rw [step]
  rcases hrun : QueuedPeerTransport.pumpReceived inner w.queue with ⟨e | calls, queue⟩
  · rw [hrun] at hwp
    obtain rfl : queue = w.queue := hwp
    exact { h with }
  · rw [hrun] at hwp
    obtain ⟨hoverflow, rfl, rfl⟩ := hwp
    have hall := h.waiting hoverflow
    exact { h with
      queue := .taken w.queue
      callback := h.callback
      delivered := hall ▸ List.prefix_rfl
      waiting := fun _ => (List.append_nil _).trans hall }

/-- **Every step** keeps the invariant.  Its three kinds of action concern the sender, one channel,
or the last queue, and leave the others alone. -/
theorem sound_step (hbridge : ∀ i, bridge.accepts i = true) (h : w.Sound) {action : Action}
    (hsteady : w.Steady action) : (w.step bridge action).Sound := by
  cases action with
  | call call => exact h.call hbridge call hsteady
  | arrive channel x now =>
    rw [step]
    split
    · rename_i hflight
      exact h.arrive hflight hsteady
    · exact h
  | pumpReceived inner => exact h.pumpReceived inner

/-! ## What the session gets

The frames that come out of reassembly get to the session in the order in which they come out,
whatever the session does with them. -/

/-- The frames that have been sent on a channel. -/
def sentOn (w : Link) (channel : Channel) : List Bytes :=
  (w.sender.lane channel).sent.map Prod.snd

/-- Everything sent on the channel has been handed over and has arrived. -/
def Drained (w : Link) (channel : Channel) : Prop :=
  (w.sender.lane channel).outgoing = [] ∧
    (w.inbound channel).arrived.length = (w.sender.lane channel).handed.length

theorem sentOn_eq {channel : Channel} {frames : List Outgoing}
    (hc : Carried (w.sender.lane channel) (w.inbound channel) (framesOn channel w.offered) frames) :
    w.sentOn channel = frames.map Outgoing.wire := by
  rw [sentOn, ← hc.sent, List.map_map]
  rfl

/-- When everything has arrived, every frame has come out. -/
theorem filter_of_drained {channel : Channel} {frames : List Outgoing}
    (hc : Carried (w.sender.lane channel) (w.inbound channel) (framesOn channel w.offered) frames)
    (hdrained : w.Drained channel) :
    frames.filter (fun f => decide (f.Complete (w.inbound channel).arrived)) = frames := by
  obtain ⟨houtgoing, hlength⟩ := hdrained
  have hperm := (hc.once.subperm fun x hx => hc.handed x hx).perm_of_length_le hlength.ge
  have hstream := hc.stream
  rw [houtgoing, List.append_nil] at hstream
  refine List.filter_eq_self.mpr fun f hf => decide_eq_true fun x hx => ?_
  exact hperm.mem_iff.mpr (hstream ▸ List.mem_flatMap.mpr ⟨f, hf, hx⟩)

end Link

/-- **The session gets what was sent.**  In every run in which nothing pending expires and the bulk
channel stays within the limits of reassembly, the frames that the session has got on the control
channel are the first ones sent there, in order, and those it has got on the bulk channel are
different ones of those sent there; reassembly has not failed and the queue is within its budget;
and once everything has been handed over, has arrived and has been taken, and the budget was never
exceeded, the session has got all of them. -/
theorem link_delivers (bridge : Bridge) (hbridge : ∀ i, bridge.accepts i = true)
    (actions : List Link.Action)
    (hsteady : Run.Along (Link.step bridge) Link.Steady {} actions) :
    let w := Run.run (Link.step bridge) {} actions
    framesOn .control w.delivered <+: w.sentOn .control ∧
      (framesOn .bulk w.delivered).Subperm (w.sentOn .bulk) ∧
      w.wireError = none ∧
      (w.queue.received.map fun r => r.2.length).sum ≤ receiveBudget.toNat ∧
      (w.queue.overflow = false → w.queue.received = [] → (∀ channel, w.Drained channel) →
        framesOn .control w.delivered = w.sentOn .control ∧
          (framesOn .bulk w.delivered).Perm (w.sentOn .bulk)) := by
  intro w
  have h : w.Sound := Run.run_invariant (I := Link.Sound) (P := Link.Steady)
    (fun _ _ hs h => Link.sound_step hbridge h hs) actions {} hsteady .empty
  obtain ⟨control, hcontrol, horder⟩ := h.carries .control
  obtain ⟨bulk, hbulk, -⟩ := h.carries .bulk
  have horder := horder rfl
  have hdelivered : ∀ channel, framesOn channel w.delivered <+: framesOn channel w.offered :=
    fun channel => (h.delivered.filter _).map _
  have hfirst : framesOn .control w.offered <+: w.sentOn .control := by
    rw [horder.offered, Link.sentOn_eq hcontrol]
    refine (InOrder.complete_front hcontrol ?_).map _
    rw [← hcontrol.stream]
    exact horder.arrived.trans (List.prefix_append _ _)
  refine ⟨(hdelivered .control).trans hfirst, ?_, h.quiet, h.queue.counted ▸ h.queue.budget,
    fun hoverflow hreceived hdrained => ?_⟩
  · rw [Link.sentOn_eq hbulk]
    refine (hdelivered .bulk).sublist.subperm.trans (hbulk.offered.subperm.trans ?_)
    exact (List.filter_sublist.map _).subperm
  · have hall : w.delivered = w.offered := by
      have hwaiting := h.waiting hoverflow
      rwa [hreceived, List.append_nil] at hwaiting
    have hbulkAll := hbulk.offered
    rw [Link.filter_of_drained hbulk (hdrained .bulk)] at hbulkAll
    rw [hall, Link.sentOn_eq hcontrol, Link.sentOn_eq hbulk, horder.offered,
      Link.filter_of_drained hcontrol (hdrained .control)]
    exact ⟨rfl, hbulkAll⟩

/-- A bridge that is ready, has nothing buffered and takes every fragment. -/
def openBridge : Bridge := ⟨fun _ => true, fun _ => 0, fun _ => true⟩

/-- Two frames are sent on either channel.  The second bulk frame arrives before everything else,
and the first one after everything else. -/
def overtaken : List Link.Action :=
  [.call (.send .bulk [7]), .call (.send .control [1]), .call (.send .bulk [8]),
    .call (.send .control [2]), .arrive .bulk (fragmentAt 3 [8] 0) 0,
    .arrive .control (fragmentAt 2 [1] 0) 1, .pumpReceived (.ok ()),
    .arrive .control (fragmentAt 4 [2] 0) 2, .arrive .bulk (fragmentAt 1 [7] 0) 3,
    .pumpReceived (.ok ())]

theorem overtaken_steady : Run.Along (Link.step openBridge) Link.Steady {} overtaken := by
  decide +kernel

theorem link_delivers_overtaken :
    let w := Run.run (Link.step openBridge) {} overtaken
    framesOn .control w.delivered = [[1], [2]] ∧ framesOn .bulk w.delivered = [[8], [7]] ∧
      framesOn .control w.delivered = w.sentOn .control ∧
        (framesOn .bulk w.delivered).Perm (w.sentOn .bulk) := by
  have h := link_delivers openBridge (fun _ => rfl) overtaken overtaken_steady
  refine ⟨by decide +kernel, by decide +kernel, ?_⟩
  refine h.2.2.2.2 (by decide +kernel) (by decide +kernel) fun channel => ?_
  cases channel with
  | control => exact ⟨by decide +kernel, by decide +kernel⟩
  | bulk => exact ⟨by decide +kernel, by decide +kernel⟩

end Transport

end VeritasSync
