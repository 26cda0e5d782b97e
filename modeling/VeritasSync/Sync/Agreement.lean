import VeritasSync.Sync.Causality
import VeritasSync.Sync.Policy

/-!
# The two rule files agree

Both nodes of a world are parties of one two-phase commit, and the control queues carry its
messages.  Every action of a world is a move of one party, or loses messages, so
`TwoPhase.Agreed` holds in every state that a run reaches (`PolicyInv`).

A replayed frame is not among the actions here: the transport delivers in order, and the protocol
relies on it.

The abstract protocol is in `VeritasSync.Lib.TwoPhase` and knows nothing of files, frames or
databases.  `VeritasSync.Sync.Policy` shows that a node moves as a party of it.  What remains for
this module is to put two nodes and their queues together and to check that every action of the
world is a move of one of them, including the ones in which nothing of the protocol happens.
-/

set_option autoImplicit false

namespace VeritasSync

open TwoPhase (Agreed Linked)

variable {H : Type}

namespace World

/-- The identifiers of two nodes are different, so their proposals are. -/
theorem disjoint_usedProposals {n n' : Node H} (h : ∀ i j, n.uuid i ≠ n'.uuid j) :
    Disjoint n.usedProposals n'.usedProposals := by
  rw [Set.disjoint_left]
  rintro m ⟨i, -, hi⟩ ⟨j, -, hj⟩
  exact h i j (hi.trans hj.symm)

/-- No policy record, and nothing in flight about one. -/
structure Unrecorded (w : World H) : Prop where
  record : ∀ s, (w.node s).db.pendingPolicy = none
  queue : ∀ s, negotiation (w.queue s .control) = []
  out : ∀ s, (w.node s).out = []
  distinct : w.Distinct
  paired : ∀ s, (w.node s).config.peerDeviceId = (w.node s.other).config.deviceId
  supply : ∀ s, Function.Injective (w.node s).uuid

/-- The same, and equal rule files. -/
structure Unnegotiated (w : World H) : Prop extends Unrecorded w where
  rules : (w.node .a).folder.rules = (w.node .b).folder.rules

theorem Unrecorded.policyRecord {w : World H} (h : w.Unrecorded) (s : Side) :
    (w.node s).policyRecord = .idle := by
  rw [Node.policyRecord, h.record s]

/-- Policy frames travel on the control channel. -/
theorem negotiation_filter_control (frames : List (Frame H)) :
    negotiation (frames.filter fun f => f.channel = .control) = negotiation frames := by
  induction frames with
  | nil => rfl
  | cons f frames ih =>
    rw [List.filter_cons]
    split
    · rw [negotiation, List.filterMap_cons, negotiation, List.filterMap_cons]
      rw [negotiation, negotiation] at ih
      rw [ih]
    · rename_i hf
      have hnone : f.negotiation = none := by
        cases f <;> first | rfl | exact absurd rfl hf
      rw [ih, negotiation, negotiation, List.filterMap_cons, hnone]

theorem sublist_dropHead (w : World H) (side : Side) (channel : Channel) (s : Side) :
    (negotiation ((w.dropHead side channel).queue s .control)).Sublist
      (negotiation (w.queue s .control)) := by
  simp only [dropHead]
  split
  · exact (List.tail_sublist _).filterMap _
  · exact List.Sublist.refl _

variable [ContentHash H]

/-- Both nodes as parties, with what is in flight between them. -/
structure LinkInv (w : World H) : Prop where
  linked : ∀ s, Linked Node.proposedHash (w.node s).usedProposals
    (w.node s.other).usedProposals (w.node s).party (w.node s.other).party
    (negotiation (w.queue s.other .control)) (negotiation (w.queue s .control))
  out : ∀ s, (w.node s).out = []
  distinct : w.Distinct
  paired : ∀ s, (w.node s).config.peerDeviceId = (w.node s.other).config.deviceId
  supply : ∀ s, Function.Injective (w.node s).uuid

theorem linkInv_of_unrecorded {w : World H} (h : w.Unrecorded) : w.LinkInv := by
  refine ⟨fun s => ?_, h.out, h.distinct, h.paired, h.supply⟩
  rw [h.queue, h.queue]
  exact .init (h.policyRecord s) (h.policyRecord s.other)
    (disjoint_usedProposals (h.distinct s).2)

theorem LinkInv.peer {w : World H} (h : w.LinkInv) (s : Side) :
    (w.node s).config.deviceId ≠ (w.node s).config.peerDeviceId := by
  rw [h.paired s]
  exact (h.distinct s).1

/-! ## Steps -/

/-- One side makes a move; the message it takes is gone from its queue. -/
structure PolicyStep (w w' : World H) (s : Side) (fresh : Set (IgnorePolicyMessage H))
    (input : Option (TwoPhase.Kind × IgnorePolicyMessage H))
    (out : List (TwoPhase.Kind × IgnorePolicyMessage H)) : Prop where
  identity : ∀ t, (w'.node t).identity = (w.node t).identity
  idle : ∀ t, (w'.node t).out = []
  used : (w.node s).usedProposals ⊆ (w'.node s).usedProposals
  unused : fresh ⊆ (w'.node s).usedProposals \ (w.node s).usedProposals
  move : TwoPhase.Move Node.proposedHash fresh (w.node s).party input (w'.node s).party out
  other : w'.node s.other = w.node s.other
  sent : negotiation (w'.queue s.other .control) = negotiation (w.queue s.other .control) ++ out
  taken : negotiation (w.queue s .control) =
    input.toList ++ negotiation (w'.queue s .control)

/-- Nobody makes a move, but messages may disappear from the queues.  This is what a lost frame and
a broken connection do. -/
structure Forgets (w w' : World H) : Prop where
  identity : ∀ s, (w'.node s).identity = (w.node s).identity
  idle : ∀ s, (w'.node s).out = []
  used : ∀ s, (w'.node s).usedProposals = (w.node s).usedProposals
  party : ∀ s, (w'.node s).party = (w.node s).party
  queue : ∀ s, (negotiation (w'.queue s .control)).Sublist (negotiation (w.queue s .control))

variable {w w' : World H} {s : Side}

/-- An event at one side is a step of that side. -/
theorem policyStep_perform (h : w.LinkInv) (queue : Side → Channel → List (Frame H)) {e : Event H}
    (hqueue : queue s.other .control = w.queue s.other .control)
    (htaken : negotiation (w.queue s .control) =
      (Node.eventNegotiation e).toList ++ negotiation (queue s .control)) :
    ∃ fresh out, PolicyStep w (World.perform { w with queue := queue } s e) s fresh
      (Node.eventNegotiation e) out ∧ (¬ e.IsPropose → fresh = ∅) := by
  obtain ⟨fresh, ⟨hidentity, huuids, hunused, frames, hsent, hmove, -, -⟩, hfresh⟩ :=
    Node.policyMove_perform (h.peer s) (h.supply s) (h.out s) e
  have hout : ((w.node s).perform e).out = frames := by
    rw [hsent.out, h.out s, List.nil_append]
  refine ⟨fresh, negotiation frames, ⟨identity_perform { w with queue := queue } s e, fun t => ?_,
    ?_, ?_, ?_, settle_node_other _ _ _, ?_, ?_⟩, hfresh⟩
  · rcases Side.eq_or_eq_other s t with rfl | rfl
    · rw [perform, settle_node_self]
    · rw [perform, settle_node_other]
      exact h.out _
  · rw [perform, settle_node_self]
    exact Node.usedProposals_mono hidentity huuids
  · rw [perform, settle_node_self]
    exact hunused
  · rw [perform, settle_node_self]
    exact hmove
  · simp only [perform, settle, if_true]
    rw [Node.negotiation_append, negotiation_filter_control, hout, hqueue]
  · rw [htaken]
    simp only [perform, settle, if_neg (Side.other_ne s).symm]

/-- **Every action but a replay is a move of one side, or loses messages.**  A message is only taken
by delivering it, and only a proposal makes up a new text. -/
theorem step_cases (h : w.LinkInv) {action : Action H} (hreplay : ¬ action.IsReplay) :
    w.Forgets (w.step action) ∨ ∃ s fresh input out,
      w.PolicyStep (w.step action) s fresh input out ∧
      (∀ i, input = some i → ∃ env f rest, action = .deliver s env .control ∧
        w.queue s .control = f :: rest ∧ f.negotiation = some i) ∧
      (fresh ≠ ∅ → ∃ env c, action = .call s env c ∧ c.IsPropose) := by
  cases action with
  | call side env c =>
    obtain ⟨fresh, out, hstep, hfresh⟩ :=
      policyStep_perform h w.queue (s := side) (e := .call env c) rfl rfl
    refine .inr ⟨side, fresh, none, out, hstep, (fun _ h => by cases h), fun hne => ?_⟩
    exact ⟨env, c, rfl, not_not.mp fun hc => hne (hfresh hc)⟩
  | deliver side env channel =>
    rw [step]
    split
    · exact .inl ⟨fun _ => rfl, h.out, fun _ => rfl, fun _ => rfl, fun _ => List.Sublist.refl _⟩
    · rename_i frame rest hq
      -- a frame taken from the queue was the next message, if it is about rules at all
      have htaken : negotiation (w.queue side .control) =
          (Node.eventNegotiation (.receive env channel frame)).toList ++
            negotiation ((w.dropHead side channel).queue side .control) := by
        cases channel with
        | control =>
          have hrest : (w.dropHead side .control).queue side .control = rest := by
            rw [show (w.dropHead side .control).queue side .control = _ from if_pos ⟨rfl, rfl⟩, hq,
              List.tail_cons]
          rw [hrest, hq, negotiation, List.filterMap_cons, Node.eventNegotiation, negotiation]
          cases frame.negotiation <;> rfl
        | bulk =>
          have hsame : (w.dropHead side .bulk).queue side .control = w.queue side .control :=
            if_neg fun ht => by cases ht.2
          rw [hsame]
          rfl
      obtain ⟨fresh, out, hstep, hfresh⟩ :=
        policyStep_perform h (w.dropHead side channel).queue (s := side)
          (if_neg fun ht => Side.other_ne side ht.1) htaken
      refine .inr ⟨side, fresh, _, out, hstep, fun i hi => ?_, fun hne => absurd (hfresh id) hne⟩
      cases channel with
      | control => exact ⟨env, frame, rest, rfl, hq, hi⟩
      | bulk => cases hi
  | lose side channel =>
    exact .inl ⟨fun _ => rfl, h.out, fun _ => rfl, fun _ => rfl, sublist_dropHead w side channel⟩
  | replay side env index => exact absurd trivial hreplay
  | restart side =>
    -- a restarted node keeps its record and its file, and its queues are gone
    have hnode : ∀ s, (w.perform side .restart).node s = w.node s ∨
        (w.perform side .restart).node s = (w.node s).restart := by
      intro s
      rcases Side.eq_or_eq_other side s with rfl | rfl
      · exact .inr (settle_node_self _ _ _)
      · exact .inl (settle_node_other _ _ _)
    refine .inl ⟨fun s => ?_, fun s => ?_, fun s => ?_, fun s => ?_, fun s => List.nil_sublist _⟩
    · exact identity_perform w side .restart s
    · rcases hnode s with heq | heq
      · exact (congrArg Node.out heq).trans (h.out s)
      · exact congrArg Node.out heq
    · rcases hnode s with heq | heq
      · exact congrArg Node.usedProposals heq
      · exact (congrArg Node.usedProposals heq).trans rfl
    · rcases hnode s with heq | heq
      · exact congrArg Node.party heq
      · exact (congrArg Node.party heq).trans rfl

/-- What holds for the side that moved and for the other one holds for both. -/
theorem forall_side {I : Side → Prop} (s : Side) (hs : I s) (hother : I s.other) (t : Side) :
    I t := by
  rcases Side.eq_or_eq_other s t with rfl | rfl
  · exact hs
  · exact hother

theorem linkInv_of_identity (h : w.LinkInv)
    (hid : ∀ t, (w'.node t).identity = (w.node t).identity) (hidle : ∀ t, (w'.node t).out = [])
    (hlinked : ∀ s, Linked Node.proposedHash (w'.node s).usedProposals
      (w'.node s.other).usedProposals (w'.node s).party (w'.node s.other).party
      (negotiation (w'.queue s.other .control)) (negotiation (w'.queue s .control))) :
    w'.LinkInv := by
  have hconfig : ∀ t, (w'.node t).config = (w.node t).config := fun t => congrArg Prod.fst (hid t)
  refine ⟨hlinked, hidle, h.distinct.of_identity hid, fun t => ?_, fun t => ?_⟩
  · rw [hconfig, hconfig]
    exact h.paired t
  · rw [show (w'.node t).uuid = _ from congrArg Prod.snd (hid t)]
    exact h.supply t

/-- **The link survives every action but a replay.**  A replayed frame would be a message that
nobody has sent, as far as the invariant can tell. -/
theorem linkInv_step (h : w.LinkInv) {action : Action H} (hreplay : ¬ action.IsReplay) :
    (w.step action).LinkInv := by
  rcases step_cases h hreplay with hforget | ⟨s, fresh, input, out, hstep, -, -⟩
  · refine linkInv_of_identity h hforget.identity hforget.idle fun s => ?_
    rw [hforget.used, hforget.used, hforget.party, hforget.party]
    exact (h.linked s).forget (hforget.queue s.other) (hforget.queue s)
  · have hmoved : Linked Node.proposedHash ((w.step action).node s).usedProposals
        ((w.step action).node s.other).usedProposals ((w.step action).node s).party
        ((w.step action).node s.other).party
        (negotiation ((w.step action).queue s.other .control))
        (negotiation ((w.step action).queue s .control)) := by
      rw [hstep.sent, hstep.other]
      refine (h.linked s).move (hstep.move.mono hstep.unused) hstep.used ?_ hstep.taken
      refine disjoint_usedProposals fun i j => ?_
      rw [show ((w.step action).node s).uuid = _ from congrArg Prod.snd (hstep.identity s)]
      exact (h.distinct s).2 i j
    refine linkInv_of_identity h hstep.identity hstep.idle (forall_side s hmoved ?_)
    rw [Side.other_other]
    exact hmoved.symm

/-- The link, and equal rule files as long as nothing is decided and unfinished. -/
structure PolicyInv (w : World H) : Prop extends LinkInv w where
  agreed : ∀ s, Agreed (w.node s).party (w.node s.other).party

theorem policyInv_of_unnegotiated (h : w.Unnegotiated) : w.PolicyInv := by
  refine { linkInv_of_unrecorded h.toUnrecorded with agreed := forall_side .a ?_ ?_ }
  · exact fun _ _ => congrArg blake3 h.rules
  · exact fun _ _ => congrArg blake3 h.rules.symm

/-- **Every action but a replay keeps the invariant.**  An action at one side is a move of its
party, and the invariant of the two-phase protocol does the rest. -/
theorem policyInv_step (h : w.PolicyInv) {action : Action H} (hreplay : ¬ action.IsReplay) :
    (w.step action).PolicyInv := by
  refine { linkInv_step h.toLinkInv hreplay with agreed := ?_ }
  rcases step_cases h.toLinkInv hreplay with hforget | ⟨s, fresh, input, out, hstep, -, -⟩
  · intro s
    rw [hforget.party, hforget.party]
    exact h.agreed s
  · have hmoved : Agreed ((w.step action).node s).party ((w.step action).node s.other).party := by
      rw [hstep.other]
      exact (h.linked s).agreed_move (h.agreed s) hstep.move hstep.taken
    refine forall_side s hmoved ?_
    rw [Side.other_other]
    exact hmoved.symm

/-- An action leaves a node alone, or something happens to it. -/
theorem node_step (w : World H) (action : Action H) (s : Side) :
    (w.step action).node s = w.node s ∨
      ∃ e, (w.step action).node s = { (w.node s).perform e with out := [] } := by
  have hperform : ∀ (w' : World H) (side : Side) (e : Event H), w'.node = w.node →
      (w'.perform side e).node s = w.node s ∨
        ∃ e', (w'.perform side e).node s = { (w.node s).perform e' with out := [] } := by
    intro w' side e hnode
    rcases Side.eq_or_eq_other side s with rfl | rfl
    · exact .inr ⟨e, by rw [perform, settle_node_self, hnode]⟩
    · exact .inl (by rw [perform, settle_node_other, hnode])
  cases action with
  | call side env c => exact hperform w side _ rfl
  | deliver side env channel =>
    rw [step]
    split
    · exact .inl rfl
    · exact hperform _ side _ rfl
  | lose side channel => exact .inl rfl
  | replay side env index =>
    rw [step]
    split
    · exact .inl rfl
    · exact hperform w side _ rfl
  | restart side => exact hperform w side _ rfl

end World

namespace Node

/-- A decision or its completion is read off the record in one way only. -/
theorem pendingPolicy_of_record {n : Node H} {p : PendingIgnorePolicy H}
    (horigin : p.originDeviceId = n.config.deviceId)
    (hstate : p.state = .committed ∨ p.state = .applied)
    (h : n.policyRecord = p.record n.config.deviceId) : n.db.pendingPolicy = some p := by
  obtain ⟨id, origin, base, rules, source, state⟩ := p
  rw [PendingIgnorePolicy.record, if_pos horigin] at h
  rw [policyRecord] at h
  cases hpending : n.db.pendingPolicy with
  | none =>
    rw [hpending] at h
    rcases hstate with rfl | rfl <;> cases h
  | some q =>
    obtain ⟨id', origin', base', rules', source', state'⟩ := q
    simp only [hpending, PendingIgnorePolicy.record] at h
    by_cases horigin' : origin' = n.config.deviceId
    · rw [if_pos horigin'] at h
      rcases hstate with rfl | rfl <;> cases state' <;> cases h <;>
        rw [horigin', show origin = _ from horigin]
    · rw [if_neg horigin'] at h
      rcases hstate with rfl | rfl <;> cases state' <;> cases h

variable [ContentHash H]

/-- A decided proposal stays decided until its rules are in the file. -/
theorem decided_perform (hinj : Function.Injective (blake3 : Bytes → H)) {n : Node H}
    (hpeer : n.config.deviceId ≠ n.config.peerDeviceId) (huuid : Function.Injective n.uuid)
    (hout : n.out = []) {p : PendingIgnorePolicy H} (hp : n.db.pendingPolicy = some p)
    (horigin : p.originDeviceId = n.config.deviceId) (hstate : p.state = .committed)
    (e : Event H) :
    (n.perform e).db.pendingPolicy = some p ∨
      (n.perform e).db.pendingPolicy = some { p with state := .applied } ∧
        (n.perform e).folder.rules = p.rules := by
  obtain ⟨fresh, ⟨hidentity, -, -, frames, -, hmove, -, -⟩, -⟩ :=
    policyMove_perform hpeer huuid hout e
  have hconfig : (n.perform e).config = n.config := congrArg Prod.fst hidentity
  have hrecord : n.party.record = .decided p.message := by
    rw [party, policyRecord_own hp horigin, hstate]
  have horigin' : p.originDeviceId = (n.perform e).config.deviceId := by rw [hconfig, horigin]
  rcases hmove.of_decided hrecord with hdecided | ⟨hfinished, hrules⟩
  · refine .inl (pendingPolicy_of_record horigin' (.inl hstate) (hdecided.trans ?_))
    rw [PendingIgnorePolicy.record, if_pos horigin', hstate]
  · exact .inr ⟨pendingPolicy_of_record horigin' (.inr rfl) (hfinished.trans
      (if_pos horigin').symm),
      hinj hrules⟩

end Node

namespace World

variable [ContentHash H]

/-- **The rule files agree.**  Start from equal rule files and no negotiation, and let the peers run
in any order: proposals on either side, frames delivered in order or lost, retries, storage failures
and restarts.  Whenever neither peer has a negotiation pending, the rule files are equal; and a
proposer that has decided leaves that state only for the completion of its proposal, with the
proposed rules in its file. -/
theorem rules_agree (hinj : Function.Injective (blake3 : Bytes → H)) {w : World H}
    (h : w.Unnegotiated) {actions : List (Action H)} (hreplay : ∀ a ∈ actions, ¬ a.IsReplay) :
    ((∀ s, ((w.run actions).node s).policyPending = false) →
        ((w.run actions).node .a).folder.rules = ((w.run actions).node .b).folder.rules) ∧
      ∀ s p, ((w.run actions).node s).db.pendingPolicy = some p →
        p.originDeviceId = ((w.run actions).node s).config.deviceId → p.state = .committed →
        ∀ action, (((w.run actions).step action).node s).db.pendingPolicy = some p ∨
          (((w.run actions).step action).node s).db.pendingPolicy =
              some { p with state := .applied } ∧
            (((w.run actions).step action).node s).folder.rules = p.rules := by
  have hinv : (w.run actions).PolicyInv := by
    exact Run.run_invariant (I := PolicyInv) (P := fun _ a => ¬ a.IsReplay)
      (fun _ _ ha hw => policyInv_step hw ha) actions w (Run.along_of_forall hreplay)
      (policyInv_of_unnegotiated h)
  refine ⟨fun hpending => ?_, fun s p hp horigin hstate action => ?_⟩
  · have hdecided : ∀ s p, ((w.run actions).node s).policyRecord ≠ .decided p := by
      intro s p hp
      have hnot := Node.not_pending_of_policyPending (hpending s)
      rw [hp] at hnot
      exact hnot (.decided p)
    exact hinj (hinv.agreed .a (hdecided .a) (hdecided .b))
  · rcases node_step (w.run actions) action s with heq | ⟨e, heq⟩
    · exact .inl (by rw [heq, hp])
    · rw [heq]
      refine Node.decided_perform hinj ?_ (hinv.supply s) (hinv.out s) hp horigin hstate e
      rw [hinv.paired s]
      exact (hinv.distinct s).1

/-- The sample peers have not negotiated anything. -/
theorem unnegotiated_sampleWorld : (sampleWorld (.empty []) (.empty [])).Unnegotiated where
  rules := rfl
  record s := by cases s <;> rfl
  queue _ := rfl
  out s := by cases s <;> rfl
  distinct := (new_sampleWorld _ _).distinct
  paired s := by cases s <;> rfl
  supply s := by
    cases s
    · exact (supply_sample .a).injective
    · exact (supply_sample .b).injective

/-- The sample peers meet, and one of them proposes a rule file. -/
def negotiate : List (Action Bytes) :=
  connect ++ [.call .a sampleEnvironment (.propose [] (ascii "x") .manual),
    .deliver .b sampleEnvironment .control, .deliver .a sampleEnvironment .control,
    .deliver .b sampleEnvironment .control, .deliver .a sampleEnvironment .control]

/-- The negotiation ends with the proposed rules on both sides. -/
theorem rules_agree_negotiated :
    (((sampleWorld (.empty []) (.empty [])).run negotiate).node .b).folder.rules = ascii "x" ∧
      (((sampleWorld (.empty []) (.empty [])).run negotiate).node .a).folder.rules =
        (((sampleWorld (.empty []) (.empty [])).run negotiate).node .b).folder.rules := by
  refine ⟨by decide +kernel, (rules_agree Function.injective_id unnegotiated_sampleWorld ?_).1 ?_⟩
  · simp [negotiate, connect, Action.IsReplay]
  · intro s
    cases s <;> decide +kernel

end World

end VeritasSync
