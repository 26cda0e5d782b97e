import VeritasSync.Sync.Agreement

/-!
# Who still has the proposal

A party that has prepared a proposal waits for its proposer, and a proposer that has decided waits
for the other party.  Neither may be left alone.

* A prepared party is left alone when its proposer gives the proposal up.  A proposal is repeated
  until it is answered, so one copy can be turned down and the next one accepted; the rejection then
  withdraws what has just been prepared.
* A proposer is left alone when the other party has installed the decision, its answer is lost, and
  it starts a proposal of its own: the only record is overwritten.

Both happen (`orphaned_prepared`, `forgotten_receipt`).  Each of the two results below says which
step has to be absent from a run.

Both are defects of the protocol as it is implemented.  Neither breaks the agreement on the rules,
which is `VeritasSync.Sync.Agreement`: a party that is left alone keeps its old rules and keeps
waiting, and as long as it waits it neither sends nor accepts data.
-/

set_option autoImplicit false

namespace VeritasSync

open TwoPhase (Attended Retained)

variable {H : Type}

namespace Node

open Exec

/-! ## Phases and origins -/

/-- A record is about a proposal of one of the two devices, and in a phase that fits: only its own
device has it `proposed`, and only the other one has it `prepared`. -/
def InPhase (config : Config) (p : PendingIgnorePolicy H) : Prop :=
  p.originDeviceId = config.deviceId ∧ p.state ≠ .prepared ∨
    p.originDeviceId = config.peerDeviceId ∧ p.state ≠ .proposed

/-- The record of a node is in a phase that fits. -/
def Phased (config : Config) (n : Node H) : Prop :=
  n.config = config ∧ ∀ p, n.db.pendingPolicy = some p → InPhase config p

section Phased

variable {config : Config} {n n' : Node H}

theorem Phased.of_same (h : n.Phased config) (hconfig : n'.config = n.config)
    (hpending : n'.db.pendingPolicy = n.db.pendingPolicy) : n'.Phased config :=
  ⟨hconfig.trans h.1, fun p hp => h.2 p (hpending ▸ hp)⟩

theorem phased_of_idle {α : Type} {m : NodeM H α} (h : Within PolicyIdle m) :
    Within (Keeps (Phased config)) m :=
  fun n hn => hn.of_same (congrArg Prod.fst (h n).identity) (h n).pending

theorem phased_spend (n : Node H) : Keeps (Phased config) n n.spend := fun h => h.of_same rfl rfl

/-- Moving on to one of the last two phases. -/
theorem phased_savePolicy {policy : PendingIgnorePolicy H} (hpolicy : InPhase config policy)
    {state : PolicyState} (hstate : state = .committed ∨ state = .applied) :
    Within (Keeps (Phased config)) (savePolicy policy state) := by
  refine within_dbDo phased_spend fun n db hdb hn => ⟨hn.1, fun p hp => ?_⟩
  cases hdb
  cases hp
  have hne : state ≠ .prepared ∧ state ≠ .proposed := by rcases hstate with rfl | rfl <;> simp
  exact hpolicy.imp (And.imp_right fun _ => hne.1) (And.imp_right fun _ => hne.2)

variable [ContentHash H]

theorem phased_applyCommittedPolicy (policy : PendingIgnorePolicy H) :
    Within (Keeps (Phased config)) (applyCommittedPolicy policy) := by
  intro n hn
  refine of_wp (wp_mono (wp_applyCommittedPolicy policy n) (fun _ n' h => ?_) fun _ n' h => ?_)
  · exact hn.of_same (congrArg Prod.fst h.1.identity) h.1.pending
  · exact hn.of_same (congrArg Prod.fst h.identity) h.pending

theorem phased_retryPolicy : Within (Keeps (Phased config)) (retryPolicy (H := H)) := by
  refine within_bind within_state fun n => within_ite (fun _ => within_pure _) fun _ => ?_
  split
  · exact within_pure _
  · refine within_ite (fun _ => within_pure _) fun _ => ?_
    refine within_bind (within_when fun _ => phased_applyCommittedPolicy _) fun _ => ?_
    exact within_bind (within_update fun n hn => hn.of_same rfl rfl) fun _ =>
      within_update fun n hn => hn.of_same rfl rfl

theorem phased_proposeIgnorePolicy (expectedHash : H) (rules : Bytes) (source : PolicySource) :
    Within (Keeps (Phased config)) (proposeIgnorePolicy expectedHash rules source) := by
  refine keeps_of_wp fun n hn => ?_
  rw [proposeIgnorePolicy, wp_bind]
  refine wp_check (fun _ _ => hn) fun _ _ => ?_
  rw [wp_bind, wp_state]
  refine wp_ite (fun _ => hn) fun _ => wp_ite (fun _ => hn) fun _ => ?_
  refine wp_ite (fun _ => hn) fun _ => ?_
  rw [wp_bind]
  refine wp_check (fun _ _ => hn) fun hash _ => wp_ite (fun _ => hn) fun _ => ?_
  rw [wp_bind, wp_newUuidV4, wp_bind]
  refine wp_dbDo (hn.of_same rfl rfl) (fun _ _ => hn.of_same rfl rfl) fun db hdb => ?_
  cases hdb
  rw [wp_bind, wp_update]
  refine wp_of (phased_retryPolicy _ ⟨hn.1, fun p hp => ?_⟩)
  cases hp
  exact .inl ⟨congrArg Config.deviceId hn.1, by simp⟩

theorem phased_handlePolicyPropose (message : IgnorePolicyMessage H) :
    Within (Keeps (Phased config)) (handlePolicyPropose message) := by
  refine keeps_of_wp fun n hn => ?_
  rw [handlePolicyPropose, wp_bind, wp_state]
  split
  · refine wp_ite (fun _ => hn) fun _ => ?_
    rw [wp_send]
    exact hn.of_same rfl rfl
  · rw [wp_bind]
    refine wp_check (fun _ _ => hn) fun _ _ => wp_ite (fun _ => ?_) fun _ => ?_
    · rw [wp_send]
      exact hn.of_same rfl rfl
    refine wp_ite (fun _ => hn) fun _ => ?_
    rw [wp_bind]
    refine wp_dbDo hn (fun _ _ => hn.of_same rfl rfl) fun db hdb => ?_
    cases hdb
    rw [wp_send]
    refine ⟨hn.1, fun p hp => ?_⟩
    cases hp
    exact .inr ⟨congrArg Config.peerDeviceId hn.1, by simp⟩

/-- A received answer moves the record on, or removes it. -/
theorem phased_handlePolicyAnswer (type : PolicyFrame) (message : IgnorePolicyMessage H) :
    Within (Keeps (Phased config)) (handlePolicyAnswer type message) := by
  refine keeps_of_wp fun n hn => ?_
  rw [handlePolicyAnswer, wp_bind, wp_state]
  split
  · exact wp_ite (fun _ => hn) fun _ => hn
  rename_i pending hpending
  have hphase : InPhase config pending := hn.2 pending (Option.filter_eq_some_iff.mp hpending).1
  split
  · refine wp_of (within_bind (R := Keeps (Phased config)) within_state (fun n => ?_) n hn)
    refine within_ite (fun _ => ?_) fun _ => within_pure _
    refine within_dbDo phased_spend fun n db hdb hn => ⟨hn.1, fun p hp => ?_⟩
    cases hdb
    cases hp
  · refine wp_of (within_bind (R := Keeps (Phased config)) within_state (fun n => ?_) n hn)
    refine within_ite (fun _ => within_pure _) fun _ => ?_
    refine within_bind (phased_savePolicy hphase (.inl rfl)) fun _ => ?_
    exact within_bind (phased_applyCommittedPolicy _) fun _ =>
      within_update fun n hn => hn.of_same rfl rfl
  · refine wp_of (within_bind (R := Keeps (Phased config)) within_state (fun n => ?_) n hn)
    refine within_ite (fun _ => within_raise _) fun _ => ?_
    refine within_bind (within_when fun _ => ?_) fun _ => ?_
    · exact within_bind (phased_savePolicy hphase (.inl rfl)) fun _ =>
        within_bind (phased_applyCommittedPolicy _) fun _ => phased_savePolicy hphase (.inr rfl)
    · exact within_bind (within_update fun n hn => hn.of_same rfl rfl) fun _ =>
        phased_of_idle policyIdle_finishPolicy
  · refine wp_of (within_bind (R := Keeps (Phased config)) within_state (fun n => ?_) n hn)
    refine within_ite (fun _ => within_raise _) fun _ => ?_
    refine within_bind (within_when fun _ => ?_) fun _ => phased_of_idle policyIdle_finishPolicy
    exact within_bind (phased_applyCommittedPolicy _) fun _ => phased_savePolicy hphase (.inr rfl)

theorem phased_handlePolicy (type : PolicyFrame) (message : IgnorePolicyMessage H) :
    Within (Keeps (Phased config)) (handlePolicy type message) := by
  refine within_ite (fun _ => ?_) fun _ => within_ite (fun _ => within_raise _) fun _ => ?_
  · refine within_bind within_state fun n => ?_
    refine within_bind (within_check _) fun _ => within_ite (fun _ => within_raise _) fun _ => ?_
    refine within_bind (within_update fun n hn => hn.of_same rfl rfl) fun _ => ?_
    exact within_bind phased_retryPolicy fun _ => phased_of_idle policyIdle_sendManifest
  · refine within_bind (within_check _) fun _ => within_ite (fun _ => ?_) fun _ => ?_
    · exact phased_handlePolicyPropose message
    · exact phased_handlePolicyAnswer type message

theorem phased_receiveHello (hello : Hello) :
    Within (Keeps (Phased config)) (receiveHello (H := H) hello) := by
  refine within_bind within_state fun n => within_ite (fun _ => within_raise _) fun _ => ?_
  refine within_bind (within_update fun n hn => hn.of_same rfl rfl) fun _ => ?_
  refine within_ite (fun _ => within_pure _) fun _ => ?_
  refine within_bind (within_update fun n hn => hn.of_same rfl rfl) fun _ => ?_
  refine within_bind within_state fun n => within_bind (within_check _) fun _ => ?_
  exact within_update fun n hn => hn.of_same rfl rfl

theorem phased_dispatch (channel : Channel) (frame : Frame H) :
    Within (Keeps (Phased config)) (dispatch channel frame) := by
  have hgated : Within (Keeps (Phased config)) (receiveGated frame) :=
    phased_of_idle (policyIdle_receiveGated frame)
  refine within_ite (fun _ => within_raise _) fun _ => ?_
  cases frame with
  | malformed e => exact within_raise _
  | hello hello => exact phased_receiveHello hello
  | policy type message =>
    refine within_bind within_state fun n => within_ite (fun _ => within_raise _) fun _ => ?_
    exact phased_handlePolicy type message
  | _ => exact hgated

/-- **Every event keeps the record in a phase that fits.**  Only the handlers of the negotiation
write the record; everything else is idle. -/
theorem phased_perform (hn : n.Phased config) (e : Event H) : (n.perform e).Phased config := by
  have henv : ∀ env, ({ n with env := env } : Node H).Phased config := fun _ => hn.of_same rfl rfl
  cases e with
  | call env c =>
    cases c with
    | start => exact phased_of_idle policyIdle_start _ (henv env)
    | refreshLocal => exact phased_of_idle policyIdle_refreshLocal _ (henv env)
    | performScan =>
      exact phased_of_idle (fun n => policyIdle_of_localMove (localMove_performScan n)) _ (henv env)
    | pump =>
      refine within_bind (R := Keeps (Phased config)) within_state (fun n => ?_) _ (henv env)
      refine within_bind (within_when fun _ => phased_retryPolicy) fun _ => phased_of_idle ?_
      refine within_bind within_state fun n => within_ite (fun _ => within_pure _) fun _ => ?_
      exact within_bind (policyIdle_moves.pumpUploads _ _) fun _ =>
        within_forM fun i _ => policyIdle_moves.pumpDownload i
    | propose expectedHash rules source => exact phased_proposeIgnorePolicy _ _ _ _ (henv env)
    | edit folder => exact hn.of_same rfl rfl
    | fault k => exact hn.of_same rfl rfl
  | receive env channel frame =>
    refine within_orElse (R := Keeps (Phased config)) (phased_dispatch channel frame)
      (fun e => ?_) _ (henv env)
    exact within_update fun n hn => hn.of_same rfl rfl
  | restart => exact hn.of_same rfl rfl

end Phased

/-! ## Records in the database -/

theorem pendingPolicy_of_own {n : Node H} {m : IgnorePolicyMessage H} (h : n.policyRecord.Own m) :
    ∃ q, n.db.pendingPolicy = some q ∧ q.message = m ∧ q.originDeviceId = n.config.deviceId := by
  rw [policyRecord] at h
  split at h
  · cases h
  rename_i q hq
  refine ⟨q, hq, ?_⟩
  rw [PendingIgnorePolicy.record] at h
  split at h
  · rename_i horigin
    refine ⟨?_, horigin⟩
    split at h <;> cases h <;> rfl
  · split at h <;> cases h

theorem pendingPolicy_of_guest {n : Node H} {m : IgnorePolicyMessage H}
    (h : n.policyRecord.Guest m) :
    ∃ q, n.db.pendingPolicy = some q ∧ q.message = m ∧ q.originDeviceId ≠ n.config.deviceId := by
  rw [policyRecord] at h
  split at h
  · cases h
  rename_i q hq
  refine ⟨q, hq, ?_⟩
  rw [PendingIgnorePolicy.record] at h
  split at h
  · split at h <;> cases h
  · rename_i horigin
    refine ⟨?_, horigin⟩
    split at h <;> cases h <;> rfl

theorem applied_of_settled {n : Node H} {m : IgnorePolicyMessage H}
    (h : n.policyRecord = .settled m) :
    ∃ q, n.db.pendingPolicy = some q ∧ q.state = .applied := by
  obtain ⟨q, hq, -, horigin⟩ := pendingPolicy_of_guest (h ▸ .settled : n.policyRecord.Guest m)
  refine ⟨q, hq, ?_⟩
  rw [policyRecord_guest hq horigin] at h
  split at h
  · cases h
  · assumption
  · cases h

theorem record_of_prepared {n : Node H} (h : n.Phased n.config)
    (hpeer : n.config.deviceId ≠ n.config.peerDeviceId) {p : PendingIgnorePolicy H}
    (hp : n.db.pendingPolicy = some p) (hstate : p.state = .prepared) :
    p.originDeviceId = n.config.peerDeviceId ∧ n.policyRecord = .prepared p.message := by
  rcases h.2 p hp with ⟨-, hne⟩ | ⟨horigin, -⟩
  · exact absurd hstate hne
  · refine ⟨horigin, ?_⟩
    have hne : p.originDeviceId ≠ n.config.deviceId := horigin ▸ hpeer.symm
    simp only [policyRecord, hp, PendingIgnorePolicy.record, if_neg hne, hstate]

end Node

namespace World

variable [ContentHash H] {w : World H} {s : Side} {action : Action H}

/-- The records of both sides are in a phase that fits. -/
def Phased (w : World H) : Prop := ∀ s, (w.node s).Phased (w.node s).config

omit [ContentHash H] in
theorem phased_of_unrecorded (h : w.Unrecorded) : w.Phased := by
  refine fun s => ⟨rfl, fun p hp => ?_⟩
  rw [h.record s] at hp
  cases hp

theorem phased_step (h : w.Phased) (action : Action H) : (w.step action).Phased := by
  intro s
  rcases node_step w action s with heq | ⟨e, heq⟩
  · rw [heq]
    exact h s
  · have hperform := Node.phased_perform (h s) e
    rw [heq]
    exact ⟨rfl, fun p hp => hperform.1 ▸ hperform.2 p hp⟩

/-! ## The proposer of a prepared proposal -/

/-- A rejection takes an open proposal away from its proposer, and the other side has prepared it or
may still be asked to: a copy of the proposal is on its way. -/
def Withdraws (w : World H) (action : Action H) : Prop :=
  ∃ s env m rest, action = .deliver s env .control ∧
    w.queue s .control = .policy .reject m :: rest ∧
    (w.node s).policyRecord = .proposed m ∧
    ((w.node s.other).policyRecord = .prepared m ∨
      .policy .propose m ∈ w.queue s.other .control)

/-- Nobody has prepared, or can still be asked to prepare, a proposal that has been given up. -/
structure AttendedInv (w : World H) : Prop extends LinkInv w where
  attended : ∀ s, Attended (w.node s).party (w.node s.other).party
    (negotiation (w.queue s.other .control))
  phased : w.Phased

theorem attendedInv_of_unrecorded (h : w.Unrecorded) : w.AttendedInv := by
  refine { linkInv_of_unrecorded h with
    attended := fun s => ⟨fun p hp => ?_, fun p hp => ?_⟩, phased := phased_of_unrecorded h }
  · rw [h.queue] at hp
    cases hp
  · rw [Node.party, h.policyRecord] at hp
    cases hp

omit [ContentHash H] in
/-- A message is read off a frame in one way only. -/
theorem eq_policy_of_negotiation {f : Frame H} {kind : TwoPhase.Kind} {m : IgnorePolicyMessage H}
    (h : f.negotiation = some (kind, m)) : ∃ type, f = .policy type m ∧ type.kind = some kind := by
  cases f with
  | policy type message =>
    rw [Frame.negotiation, Option.map_eq_some_iff] at h
    obtain ⟨k, hk, heq⟩ := h
    cases heq
    exact ⟨type, rfl, hk⟩
  | _ => cases h

omit [ContentHash H] in
theorem mem_queue_of_propose {frames : List (Frame H)} {m : IgnorePolicyMessage H}
    (h : (.propose, m) ∈ negotiation frames) : .policy .propose m ∈ frames := by
  obtain ⟨f, hf, heq⟩ := List.mem_filterMap.mp h
  obtain ⟨type, rfl, hkind⟩ := eq_policy_of_negotiation heq
  cases type <;> cases hkind
  exact hf

theorem attendedInv_step (h : w.AttendedInv) (hreplay : ¬ action.IsReplay)
    (hwithdraws : ¬ w.Withdraws action) : (w.step action).AttendedInv := by
  refine { linkInv_step h.toLinkInv hreplay with
    attended := ?_, phased := phased_step h.phased action }
  rcases step_cases h.toLinkInv hreplay with hforget | ⟨s, fresh, input, out, hstep, htaken, -⟩
  · intro s
    rw [hforget.party, hforget.party]
    exact (h.attended s).forget (hforget.queue s.other)
  refine forall_side s ?_ ?_
  · rw [hstep.other, hstep.sent]
    refine (h.linked s).attended_proposer (h.attended s) hstep.move hstep.taken fun m hi hm => ?_
    obtain ⟨env, f, rest, rfl, hqueue, hf⟩ := htaken _ hi
    obtain ⟨type, rfl, hkind⟩ := eq_policy_of_negotiation hf
    cases type <;> cases hkind
    refine ⟨fun hprepared => hwithdraws ?_, fun hmem => hwithdraws ?_⟩
    · exact ⟨s, env, m, rest, rfl, hqueue, hm, .inl hprepared⟩
    · exact ⟨s, env, m, rest, rfl, hqueue, hm, .inr (mem_queue_of_propose hmem)⟩
  · have hattended := h.attended s.other
    rw [Side.other_other] at hattended ⊢
    rw [hstep.other]
    exact hattended.acceptor hstep.move hstep.taken

/-- **A prepared receiver is not left alone**, as long as no rejection withdraws a proposal that the
other side has prepared or may still be asked to prepare. -/
theorem prepared_attended (h : w.Unrecorded) {actions : List (Action H)}
    (hreplay : ∀ a ∈ actions, ¬ a.IsReplay)
    (hwithdraws : Run.Along step (fun w a => ¬ w.Withdraws a) w actions) {s : Side}
    {p : PendingIgnorePolicy H} (hp : ((w.run actions).node s).db.pendingPolicy = some p)
    (hstate : p.state = .prepared) :
    ∃ q, ((w.run actions).node s.other).db.pendingPolicy = some q ∧ q.message = p.message ∧
      q.originDeviceId = p.originDeviceId := by
  have hinv : (w.run actions).AttendedInv :=
    Run.run_invariant (I := AttendedInv) (P := fun w a => ¬ a.IsReplay ∧ ¬ w.Withdraws a)
      (fun _ _ ha hw => attendedInv_step hw ha.1 ha.2) actions w
      (Run.along_and (Run.along_of_forall hreplay) hwithdraws) (attendedInv_of_unrecorded h)
  generalize w.run actions = v at hinv hp
  obtain ⟨horigin, hrecord⟩ := Node.record_of_prepared (hinv.phased s) (hinv.peer s) hp hstate
  have hopen : (v.node s.other).policyRecord.Open p.message := by
    refine (hinv.attended s.other).prepared p.message ?_
    rw [Side.other_other]
    exact hrecord
  obtain ⟨q, hq, hmessage, hq'⟩ := Node.pendingPolicy_of_own hopen.own
  refine ⟨q, hq, hmessage, ?_⟩
  rw [hq', horigin, hinv.paired s]

/-- No rejection is the next frame of a side. -/
def Quiet (w : World H) : Prop :=
  ((w.queue .a .control).head?.bind Frame.negotiation).map Prod.fst ≠ some .reject ∧
    ((w.queue .b .control).head?.bind Frame.negotiation).map Prod.fst ≠ some .reject

instance (w : World H) : Decidable w.Quiet := inferInstanceAs (Decidable (_ ∧ _))

omit [ContentHash H] in
theorem Quiet.not_withdraws (h : w.Quiet) (action : Action H) : ¬ w.Withdraws action := by
  rintro ⟨s, env, m, rest, -, hqueue, -⟩
  cases s
  · exact h.1 (by rw [hqueue]; rfl)
  · exact h.2 (by rw [hqueue]; rfl)

/-- Two sample peers with empty folders. -/
def emptyWorld : World Bytes := sampleWorld (.empty []) (.empty [])

theorem unrecorded_emptyWorld : emptyWorld.Unrecorded := unnegotiated_sampleWorld.toUnrecorded

/-- The sample peers meet, and one of them prepares what the other one proposes. -/
def prepare : List (Action Bytes) :=
  connect ++ [.call .a sampleEnvironment (.propose [] (ascii "x") .manual),
    .deliver .b sampleEnvironment .control]

theorem prepared_attended_sample :
    ((emptyWorld.run prepare).node .b).db.pendingPolicy =
        some ⟨ascii "a", ascii "a", [], ascii "x", .manual, .prepared⟩ ∧
      ∃ q, ((emptyWorld.run prepare).node Side.b.other).db.pendingPolicy =
        some q ∧ q.message = ⟨ascii "a", [], ascii "x", .manual⟩ ∧
        q.originDeviceId = ascii "a" := by
  have hp : ((emptyWorld.run prepare).node .b).db.pendingPolicy =
      some ⟨ascii "a", ascii "a", [], ascii "x", .manual, .prepared⟩ := by decide +kernel
  have hquiet : Run.Along step (fun w _ => Quiet w) emptyWorld prepare := by
    decide +kernel
  have hwithdraws := Run.along_mono (fun w a (h : Quiet w) => h.not_withdraws a) hquiet
  have hreplay : ∀ a ∈ prepare, ¬ a.IsReplay := by simp [prepare, connect, Action.IsReplay]
  exact ⟨hp, prepared_attended (s := .b) unrecorded_emptyWorld hreplay hwithdraws
    hp rfl⟩

/-- Both sample peers propose, the first one repeats itself after turning the other proposal down,
and the two copies of its proposal are answered differently. -/
def proposeTwice : List (Action Bytes) :=
  connect ++ [.call .a sampleEnvironment (.propose [] (ascii "x") .manual),
    .call .b sampleEnvironment (.propose [] (ascii "y") .manual),
    .deliver .a sampleEnvironment .control,
    .call .a { sampleEnvironment with steadyNow := 500 } .pump,
    .deliver .b sampleEnvironment .control, .deliver .b sampleEnvironment .control,
    .deliver .b sampleEnvironment .control, .deliver .a sampleEnvironment .control]

/-- A prepared receiver can be left alone. -/
theorem orphaned_prepared :
    ¬ ∀ actions : List (Action Bytes), (∀ a ∈ actions, ¬ a.IsReplay) →
      ∀ s p, ((emptyWorld.run actions).node s).db.pendingPolicy = some p →
        p.state = .prepared →
        ∃ q, ((emptyWorld.run actions).node s.other).db.pendingPolicy =
          some q ∧ q.message = p.message ∧ q.originDeviceId = p.originDeviceId := by
  intro h
  have hb : ((emptyWorld.run proposeTwice).node .b).db.pendingPolicy =
      some ⟨ascii "a", ascii "a", [], ascii "x", .manual, .prepared⟩ := by decide +kernel
  have ha : ((emptyWorld.run proposeTwice).node .a).db.pendingPolicy =
      none := by decide +kernel
  obtain ⟨q, hq, -⟩ :=
    h proposeTwice (by simp [proposeTwice, connect, Action.IsReplay]) .b _ hb rfl
  rw [show Side.b.other = .a from rfl, ha] at hq
  cases hq

/-! ## The receiver of a decision -/

/-- A side proposes something else in place of the receipt of a decision that the other side has not
finished. -/
def Overwrites (w : World H) (action : Action H) : Prop :=
  ∃ s env c m, action = .call s env c ∧ c.IsPropose ∧ (w.node s).policyRecord = .settled m ∧
    (w.node s.other).policyRecord = .decided m

/-- The other side still has what has been decided. -/
structure RetainedInv (w : World H) : Prop extends LinkInv w where
  retained : ∀ s, Retained (w.node s).party (w.node s.other).party
  phased : w.Phased

theorem retainedInv_of_unrecorded (h : w.Unrecorded) : w.RetainedInv := by
  refine { linkInv_of_unrecorded h with
    retained := fun s p hp => ?_, phased := phased_of_unrecorded h }
  rw [Node.party, h.policyRecord] at hp
  cases hp

theorem retainedInv_step (h : w.RetainedInv) (hreplay : ¬ action.IsReplay)
    (hoverwrites : ¬ w.Overwrites action) : (w.step action).RetainedInv := by
  refine { linkInv_step h.toLinkInv hreplay with
    retained := ?_, phased := phased_step h.phased action }
  rcases step_cases h.toLinkInv hreplay with hforget | ⟨s, fresh, input, out, hstep, -, hfresh⟩
  · intro s
    rw [hforget.party, hforget.party]
    exact h.retained s
  refine forall_side s ?_ ?_
  · rw [hstep.other]
    exact (h.linked s).retained_proposer (h.retained s) hstep.move hstep.taken
  · have hretained := h.retained s.other
    rw [Side.other_other] at hretained ⊢
    rw [hstep.other]
    refine (h.linked s).symm.retained_acceptor hretained hstep.move hstep.taken fun m hm hm' => ?_
    by_contra hne
    obtain ⟨env, c, rfl, hc⟩ := hfresh hne
    exact hoverwrites ⟨s, env, c, m, rfl, hc, hm', hm⟩

/-- **The receipt of a decision is retained**, as long as no side proposes something else in its
place. -/
theorem committed_retained (h : w.Unrecorded) {actions : List (Action H)}
    (hreplay : ∀ a ∈ actions, ¬ a.IsReplay)
    (hoverwrites : Run.Along step (fun w a => ¬ w.Overwrites a) w actions) {s : Side}
    {p : PendingIgnorePolicy H} (hp : ((w.run actions).node s).db.pendingPolicy = some p)
    (horigin : p.originDeviceId = ((w.run actions).node s).config.deviceId)
    (hstate : p.state = .committed) :
    ∃ q, ((w.run actions).node s.other).db.pendingPolicy = some q ∧ q.message = p.message ∧
      q.originDeviceId = p.originDeviceId ∧
      (q.state = .prepared ∨ q.state = .committed ∨ q.state = .applied) := by
  have hinv : (w.run actions).RetainedInv :=
    Run.run_invariant (I := RetainedInv) (P := fun w a => ¬ a.IsReplay ∧ ¬ w.Overwrites a)
      (fun _ _ ha hw => retainedInv_step hw ha.1 ha.2) actions w
      (Run.along_and (Run.along_of_forall hreplay) hoverwrites) (retainedInv_of_unrecorded h)
  generalize w.run actions = v at hinv hp horigin
  have hrecord : (v.node s).policyRecord = .decided p.message := by
    rw [Node.policyRecord_own hp horigin, hstate]
  obtain ⟨q, hq, hmessage, hne⟩ := Node.pendingPolicy_of_guest (hinv.retained s _ hrecord)
  refine ⟨q, hq, hmessage, ?_⟩
  rcases (hinv.phased s.other).2 q hq with ⟨hown, -⟩ | ⟨hpeer, hphase⟩
  · exact absurd hown hne
  · refine ⟨?_, ?_⟩
    · rw [hpeer, horigin, hinv.paired s.other, Side.other_other]
    · cases hq' : q.state with
      | proposed => exact absurd hq' hphase
      | prepared => exact .inl rfl
      | committed => exact .inr (.inl rfl)
      | applied => exact .inr (.inr rfl)

/-- The sample peers meet, one of them proposes something, and the other one installs it. -/
def install : List (Action Bytes) :=
  prepare ++ [.deliver .a sampleEnvironment .control, .deliver .b sampleEnvironment .control]

/-- No side has a receipt. -/
def Unsettled (w : World H) : Prop :=
  (w.node .a).db.pendingPolicy.map PendingIgnorePolicy.state ≠ some .applied ∧
    (w.node .b).db.pendingPolicy.map PendingIgnorePolicy.state ≠ some .applied

instance (w : World H) : Decidable w.Unsettled := inferInstanceAs (Decidable (_ ∧ _))

omit [ContentHash H] in
theorem Unsettled.not_overwrites (h : w.Unsettled) (action : Action H) : ¬ w.Overwrites action := by
  rintro ⟨s, env, c, m, -, -, hsettled, -⟩
  obtain ⟨q, hq, hstate⟩ := Node.applied_of_settled hsettled
  cases s
  · exact h.1 (by rw [hq, Option.map_some, hstate])
  · exact h.2 (by rw [hq, Option.map_some, hstate])

theorem committed_retained_sample :
    ((emptyWorld.run install).node .a).db.pendingPolicy =
        some ⟨ascii "a", ascii "a", [], ascii "x", .manual, .committed⟩ ∧
      ∃ q, ((emptyWorld.run install).node Side.a.other).db.pendingPolicy =
        some q ∧ q.message = ⟨ascii "a", [], ascii "x", .manual⟩ ∧ q.originDeviceId = ascii "a" ∧
        (q.state = .prepared ∨ q.state = .committed ∨ q.state = .applied) := by
  have hp : ((emptyWorld.run install).node .a).db.pendingPolicy =
      some ⟨ascii "a", ascii "a", [], ascii "x", .manual, .committed⟩ := by decide +kernel
  have hunsettled : Run.Along step (fun w _ => Unsettled w) emptyWorld install := by
    decide +kernel
  have hoverwrites :=
    Run.along_mono (fun w a (h : Unsettled w) => h.not_overwrites a) hunsettled
  have hreplay : ∀ a ∈ install, ¬ a.IsReplay := by
    simp [install, prepare, connect, Action.IsReplay]
  exact ⟨hp, committed_retained (s := .a) unrecorded_emptyWorld hreplay hoverwrites
    hp (by decide +kernel) rfl⟩

/-- The answer to the decision is lost, and the peer that has installed it proposes something. -/
def installAndPropose : List (Action Bytes) :=
  install ++ [.lose .a .control,
    .call .b sampleEnvironment (.propose (ascii "x") (ascii "y") .manual)]

/-- The receipt of a decision can be overwritten. -/
theorem forgotten_receipt :
    ¬ ∀ actions : List (Action Bytes), (∀ a ∈ actions, ¬ a.IsReplay) →
      ∀ s p, ((emptyWorld.run actions).node s).db.pendingPolicy = some p →
        p.originDeviceId = ((emptyWorld.run actions).node s).config.deviceId →
        p.state = .committed →
        ∃ q, ((emptyWorld.run actions).node s.other).db.pendingPolicy =
          some q ∧ q.message = p.message ∧ q.originDeviceId = p.originDeviceId ∧
          (q.state = .prepared ∨ q.state = .committed ∨ q.state = .applied) := by
  intro h
  have ha : ((emptyWorld.run installAndPropose).node .a).db.pendingPolicy =
      some ⟨ascii "a", ascii "a", [], ascii "x", .manual, .committed⟩ := by decide +kernel
  have hb : ((emptyWorld.run installAndPropose).node .b).db.pendingPolicy =
      some ⟨ascii "b", ascii "b", ascii "x", ascii "y", .manual, .proposed⟩ := by decide +kernel
  obtain ⟨q, hq, hmessage, -⟩ :=
    h installAndPropose (by simp [installAndPropose, install, prepare, connect, Action.IsReplay])
      .a _ ha (by decide +kernel) rfl
  rw [show Side.a.other = .b from rfl, hb] at hq
  cases hq
  exact absurd hmessage (by decide +kernel)

end World

end VeritasSync
