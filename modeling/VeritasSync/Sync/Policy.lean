import VeritasSync.Lib.TwoPhase
import VeritasSync.Sync.Footprint

/-!
# The negotiation is a two-phase commit

The rule file is the shared register of `TwoPhase`, the durable proposal is what a party has written
down, and the policy frames other than POLICY_HELLO are its messages.  This file connects the two:
`Node.party` reads a party off a node, and `Node.policyMove_perform` says that whatever happens to a
node is a `TwoPhase.Move` of its party.

Most functions do not touch any of this (`PolicyIdle`).  Those that do are `applyCommittedPolicy`,
which replaces the rule file, and the handlers of the five messages.  A storage operation may fail
at any point, so each of them ends in one of several moves.

The refinement has to hold for every step of a node and not only for those that handle a policy
frame.  An edit of the folder, a scan, a manifest: none of these may change the rule file or the
durable proposal, or send anything that belongs to the protocol.  This is the larger part of what
has to be shown, and it is where `VeritasSync.Sync.Footprint` is used.
-/

set_option autoImplicit false
set_option linter.unusedSectionVars false

namespace VeritasSync

open TwoPhase (Kind Move Party)

variable {H : Type}

/-- The message of a policy frame; POLICY_HELLO is not part of a negotiation. -/
def PolicyFrame.kind : PolicyFrame → Option Kind
  | .hello => none
  | .propose => some .propose
  | .ack => some .ack
  | .commit => some .commit
  | .done => some .done
  | .reject => some .reject

/-- The message of a frame. -/
def Frame.negotiation : Frame H → Option (Kind × IgnorePolicyMessage H)
  | .policy type message => type.kind.map fun kind => (kind, message)
  | _ => none

/-- The messages among some frames. -/
def negotiation (frames : List (Frame H)) : List (Kind × IgnorePolicyMessage H) :=
  frames.filterMap Frame.negotiation

/-- The frame is about the policy. -/
def Frame.IsPolicy : Frame H → Prop
  | .policy _ _ => True
  | _ => False

/-- The manifest of a frame. -/
def Frame.manifest : Frame H → Option (VersionedManifest H)
  | .versionManifest m => some m
  | _ => none

/-- The manifests among some frames. -/
def manifests (frames : List (Frame H)) : List (VersionedManifest H) :=
  frames.filterMap Frame.manifest

/-- The text of a durable proposal. -/
def PendingIgnorePolicy.message (pending : PendingIgnorePolicy H) : IgnorePolicyMessage H :=
  ⟨pending.proposalId, pending.baseHash, pending.rules, pending.source⟩

/-- What a durable proposal means on a device. -/
def PendingIgnorePolicy.record (deviceId : DeviceId) (pending : PendingIgnorePolicy H) :
    TwoPhase.Record (IgnorePolicyMessage H) :=
  if pending.originDeviceId = deviceId then
    match pending.state with
    | .committed => .decided pending.message
    | .applied => .finished pending.message
    | _ => .proposed pending.message
  else
    match pending.state with
    | .committed => .accepted pending.message
    | .applied => .settled pending.message
    | _ => .prepared pending.message

namespace Node

open Exec

/-- What a node has written down about a negotiation. -/
def policyRecord (n : Node H) : TwoPhase.Record (IgnorePolicyMessage H) :=
  match n.db.pendingPolicy with
  | none => .idle
  | some pending => pending.record n.config.deviceId

/-- The texts with an identifier the node has drawn. -/
def usedProposals (n : Node H) : Set (IgnorePolicyMessage H) :=
  { m | ∃ i < n.uuidsUsed, n.uuid i = m.proposalId }

/-- The node has sent `frames`, and remembers the last manifest among them. -/
structure Sent (frames : List (Frame H)) (n n' : Node H) : Prop where
  out : n'.out = n.out ++ frames
  manifest : n'.trace.sentManifest = (manifests frames).getLast?.or n.trace.sentManifest

theorem negotiation_append (l l' : List (Frame H)) :
    negotiation (l ++ l') = negotiation l ++ negotiation l' := List.filterMap_append

theorem manifests_append (l l' : List (Frame H)) :
    manifests (l ++ l') = manifests l ++ manifests l' := List.filterMap_append

theorem Sent.trans {frames frames' : List (Frame H)} {n n' n'' : Node H} (h : Sent frames n n')
    (h' : Sent frames' n' n'') : Sent (frames ++ frames') n n'' := by
  refine ⟨by rw [h'.out, h.out, List.append_assoc], ?_⟩
  rw [h'.manifest, h.manifest, manifests_append, List.getLast?_append, Option.or_assoc]

theorem Sent.one {f : Frame H} (hf : f.manifest = none) (n : Node H) :
    Sent [f] n { n with out := n.out ++ [f] } :=
  ⟨rfl, by simp [manifests, hf]⟩

/-! ## Steps that do not take part -/

/-- Nothing happens to the negotiation, and nothing is sent.  Most of what a node does is of this
kind, as far as the rules are concerned. -/
structure Silent (n n' : Node H) : Prop where
  identity : n'.identity = n.identity
  uuids : n.uuidsUsed ≤ n'.uuidsUsed
  pending : n'.db.pendingPolicy = n.db.pendingPolicy
  rules : n'.folder.rules = n.folder.rules
  receivedHello : n'.receivedHello = n.receivedHello
  out : n'.out = n.out
  manifest : n'.trace.sentManifest = n.trace.sentManifest

instance : IsPreorder (Node H) Silent where
  refl _ := ⟨rfl, le_rfl, rfl, rfl, rfl, rfl, rfl⟩
  trans _ _ _ h h' := ⟨h'.identity.trans h.identity, h.uuids.trans h'.uuids,
    h'.pending.trans h.pending, h'.rules.trans h.rules, h'.receivedHello.trans h.receivedHello,
    h'.out.trans h.out, h'.manifest.trans h.manifest⟩

theorem Silent.sent {n n' : Node H} (h : Silent n n') : Sent [] n n' :=
  ⟨by rw [h.out, List.append_nil], h.manifest⟩

/-- Nothing happens to the negotiation: no policy frame is sent, and a manifest only when nothing
is pending. -/
structure PolicyIdle (n n' : Node H) : Prop where
  identity : n'.identity = n.identity
  uuids : n.uuidsUsed ≤ n'.uuidsUsed
  pending : n'.db.pendingPolicy = n.db.pendingPolicy
  rules : n'.folder.rules = n.folder.rules
  sends : ∃ frames, Sent frames n n' ∧ (∀ f ∈ frames, ¬ f.IsPolicy) ∧
    (manifests frames ≠ [] → n.policyPending = false)

theorem policyPending_congr {n n' : Node H} (h : n'.db.pendingPolicy = n.db.pendingPolicy) :
    n'.policyPending = n.policyPending := by
  rw [policyPending, policyPending, Database.findPendingIgnorePolicy, h]
  rfl

instance : IsPreorder (Node H) PolicyIdle where
  refl n := ⟨rfl, le_rfl, rfl, rfl, [], (refl_of Silent n).sent, nofun, nofun⟩
  trans n n' n'' h h' := by
    obtain ⟨frames, hsent, hpolicy, hgate⟩ := h.sends
    obtain ⟨frames', hsent', hpolicy', hgate'⟩ := h'.sends
    refine ⟨h'.identity.trans h.identity, h.uuids.trans h'.uuids, h'.pending.trans h.pending,
      h'.rules.trans h.rules, frames ++ frames', hsent.trans hsent', fun f hf => ?_, fun hne => ?_⟩
    · rcases List.mem_append.mp hf with hf | hf
      · exact hpolicy f hf
      · exact hpolicy' f hf
    · by_cases hframes : manifests frames = []
      · rw [manifests_append, hframes, List.nil_append] at hne
        exact policyPending_congr h.pending ▸ hgate' hne
      · exact hgate hframes

theorem Silent.idle {n n' : Node H} (h : Silent n n') : PolicyIdle n n' :=
  ⟨h.identity, h.uuids, h.pending, h.rules, [], h.sent, nofun, nofun⟩

theorem silent_spend (n : Node H) : Silent n n.spend := ⟨rfl, le_rfl, rfl, rfl, rfl, rfl, rfl⟩

theorem policyIdle_send {f : Frame H} (hpolicy : ¬ f.IsPolicy) (hf : f.manifest = none) :
    Within PolicyIdle (send f) := by
  refine within_update fun n => ⟨rfl, le_rfl, rfl, rfl, [f], .one hf n, ?_, ?_⟩
  · simpa using hpolicy
  · simp [manifests, hf]

theorem policyIdle_of_localMove {n n' : Node H} (h : LocalMove n n') : PolicyIdle n n' := by
  obtain ⟨ms, hout, hsent, hopen⟩ := h.sends
  have hms : manifests (ms.map Frame.versionManifest) = ms := by
    rw [manifests, List.filterMap_map]
    exact List.filterMap_some
  refine ⟨congrArg₂ Prod.mk (congrArg ScanView.config h.view) (congrArg ScanView.uuid h.view),
    h.uuids, congrArg ScanView.pendingPolicy h.view,
    congrArg (fun v => v.folder.rules) h.view, ms.map Frame.versionManifest, ⟨hout, ?_⟩, ?_, ?_⟩
  · rw [hms, hsent]
  · intro f hf
    obtain ⟨m, -, rfl⟩ := List.mem_map.mp hf
    exact id
  · rw [hms]
    exact fun hne => (hopen hne).2

/-- Remote changes have nothing to do with the negotiation. -/
theorem policyIdle_moves : ManifestMoves (PolicyIdle (H := H)) := by
  have M : TransferMoves (PolicyIdle (H := H)) := {
    spend := fun n => (silent_spend n).idle
    uuid := fun n => Silent.idle ⟨rfl, Nat.le_succ _, rfl, rfl, rfl, rfl, rfl⟩
    transferId := fun n => Silent.idle ⟨rfl, le_rfl, rfl, rfl, rfl, rfl, rfl⟩
    conflict := fun n c => Silent.idle ⟨rfl, le_rfl, rfl, rfl, rfl, rfl, rfl⟩
    transfers := fun n l => Silent.idle ⟨rfl, le_rfl, rfl, rfl, rfl, rfl, rfl⟩
    tree := fun n f hf => Silent.idle ⟨rfl, le_rfl, rfl, hf, rfl, rfl, rfl⟩
    sources := fun n l => Silent.idle ⟨rfl, le_rfl, rfl, rfl, rfl, rfl, rfl⟩
    uploads := fun n l => Silent.idle ⟨rfl, le_rfl, rfl, rfl, rfl, rfl, rfl⟩
    downloads := fun n l _ => Silent.idle ⟨rfl, le_rfl, rfl, rfl, rfl, rfl, rfl⟩
    preserved := fun n c => Silent.idle ⟨rfl, le_rfl, rfl, rfl, rfl, rfl, rfl⟩
    send := fun n f hf => by
      cases f with
      | fileRequest r => exact policyIdle_send id rfl n
      | chunk c => exact policyIdle_send id rfl n
      | cancel c => exact policyIdle_send id rfl n
      | _ => cases hf }
  refine { M with
    entry := fun _ => { M with
      upsert := fun n _ _ _ => Silent.idle ⟨rfl, le_rfl, rfl, rfl, rfl, rfl, rfl⟩
      begin := fun n _ _ _ => Silent.idle ⟨rfl, le_rfl, rfl, rfl, rfl, rfl, rfl⟩ }
    row := fun n _ _ h => ?_
    clock := fun n _ _ _ h => ?_
    observed := fun n _ => Silent.idle ⟨rfl, le_rfl, rfl, rfl, rfl, rfl, rfl⟩
    received := fun n => Silent.idle ⟨rfl, le_rfl, rfl, rfl, rfl, rfl, rfl⟩
    applied := fun n _ => Silent.idle ⟨rfl, le_rfl, rfl, rfl, rfl, rfl, rfl⟩ }
  · obtain ⟨-, -, -, lineage, rfl, -⟩ := Database.recordVersionLineage_eq_ok h
    exact Silent.idle ⟨rfl, le_rfl, rfl, rfl, rfl, rfl, rfl⟩
  · obtain ⟨-, -, rfl⟩ := advanceLogicalClock_le h
    exact Silent.idle ⟨rfl, le_rfl, rfl, rfl, rfl, rfl, rfl⟩

/-! ## Replacing the rule file -/

/-- The rule file may have been replaced by `rules`; otherwise the step is silent. -/
structure Installs (rules : Bytes) (n n' : Node H) : Prop where
  identity : n'.identity = n.identity
  uuids : n.uuidsUsed ≤ n'.uuidsUsed
  pending : n'.db.pendingPolicy = n.db.pendingPolicy
  content : n'.folder.rules = n.folder.rules ∨ n'.folder.rules = rules
  sent : Sent [] n n'

theorem Silent.installs {rules : Bytes} {n n' : Node H} (h : Silent n n') :
    Installs rules n n' :=
  ⟨h.identity, h.uuids, h.pending, .inl h.rules, h.sent⟩

theorem Installs.silent {rules : Bytes} {n n' n'' : Node H} (h : Installs rules n n')
    (h' : Silent n' n'') : Installs rules n n'' :=
  ⟨h'.identity.trans h.identity, h.uuids.trans h'.uuids, h'.pending.trans h.pending,
    by rw [h'.rules]; exact h.content, h.sent.trans h'.sent⟩

theorem silent_recordRevision (content : Bytes) (hash : H) (source : PolicySource)
    (now : Int) :
    Within Silent (dbGet fun db => db.recordIgnorePolicyRevision content hash source now) := by
  refine within_dbGet silent_spend fun n r db hdb => ?_
  obtain ⟨revisions, rfl, -, -⟩ := recordIgnorePolicyRevision_data hdb
  exact ⟨rfl, le_rfl, rfl, rfl, rfl, rfl, rfl⟩

theorem readRules_eq_ok {f : Folder} {rules : Bytes} (h : f.readRules = .ok rules) :
    rules = f.rules := by
  obtain ⟨_, -, h⟩ := ok_of_bind h
  cases h
  rfl

variable [ContentHash H]

/-- The node as a party of the commit.  Contents are compared by their hash, as the code does. -/
def party (n : Node H) : Party (IgnorePolicyMessage H) H := ⟨n.policyRecord, blake3 n.folder.rules⟩

theorem policyIdle_refreshLocal : Within PolicyIdle (refreshLocal (H := H)) :=
  fun n => policyIdle_of_localMove (localMove_refreshLocal n)

theorem policyIdle_sendManifest : Within PolicyIdle (sendManifest (H := H)) :=
  fun n => policyIdle_of_localMove (localMove_sendManifest n)

theorem rulesHash_eq_ok {n : Node H} {hash : H} (h : n.rulesHash = .ok hash) :
    hash = blake3 n.folder.rules := by
  obtain ⟨rules, hrules, h⟩ := ok_of_bind h
  cases h
  rw [readRules_eq_ok hrules]

/-- `Synchronize` returns the revision that has the rule file as its content. -/
theorem wp_synchronizePolicy (n : Node H) :
    Wp synchronizePolicy
      (fun current n' => Silent n n' ∧ current.content = n.folder.rules ∧
        current.contentHash = blake3 n.folder.rules)
      (fun _ n' => Silent n n') n := by
  have hrecord : Wp (dbGet fun db =>
      db.recordIgnorePolicyRevision n.folder.rules (blake3 n.folder.rules) .manual n.nowMs)
      (fun current n' => Silent n n' ∧ current.content = n.folder.rules ∧
        current.contentHash = blake3 n.folder.rules)
      (fun _ n' => Silent n n') n := by
    refine wp_dbGet (refl_of Silent n) (fun _ _ => silent_spend n) fun r db hdb => ?_
    obtain ⟨revisions, rfl, hhash, hcontent⟩ := recordIgnorePolicyRevision_data hdb
    exact ⟨⟨rfl, le_rfl, rfl, rfl, rfl, rfl, rfl⟩, hcontent, hhash⟩
  rw [synchronizePolicy, wp_bind]
  refine wp_check (fun _ _ => refl_of Silent n) fun rules hrules => ?_
  rw [readRules_eq_ok hrules, wp_bind, wp_state]
  split
  · refine wp_ite (fun _ => hrecord) fun hsame => ?_
    push Not at hsame
    exact ⟨refl_of Silent n, hsame.2, hsame.1⟩
  · exact hrecord

theorem silent_synchronizePolicy : Within Silent (synchronizePolicy (H := H)) :=
  fun n => of_wp (wp_mono (wp_synchronizePolicy n) (fun _ _ h => h.1) fun _ _ h => h)

/-- `Apply` leaves the old rules or the new ones, and the new ones if it returns. -/
theorem wp_applyPolicy (expectedHash : H) (rules : Bytes) (source : PolicySource) (n : Node H) :
    Wp (applyPolicy expectedHash rules source)
      (fun _ n' => Installs rules n n' ∧ n'.folder.rules = rules)
      (fun _ n' => Installs rules n n') n := by
  have hstart : Installs rules n n := (refl_of Silent n).installs
  rw [applyPolicy, wp_bind]
  refine wp_check (fun _ _ => hstart) fun _ _ => wp_ite (fun _ => hstart) fun _ => ?_
  rw [wp_bind]
  refine wp_mono (wp_synchronizePolicy n) ?_ fun _ n' h => h.installs
  rintro current n' ⟨h, hcontent, -⟩
  refine wp_ite (fun _ => h.installs) fun _ => wp_ite (fun hrules => ?_) fun _ => ?_
  · refine ⟨h.installs, ?_⟩
    rw [h.rules, hrules, hcontent]
  rw [wp_bind]
  refine wp_folderDo h.installs (fun _ _ => h.installs.silent (silent_spend n'))
    fun folder hfolder => ?_
  cases hfolder
  have hnew : Installs rules n
      { n'.spend with folder := { n'.folder with rules := rules } } :=
    ⟨h.identity, h.uuids, h.pending, .inr rfl, ⟨h.sent.out, h.sent.manifest⟩⟩
  rw [wp_bind, wp_state, wp_bind]
  refine wp_mono (Q := fun _ n'' => Silent _ n'') (wp_of (silent_recordRevision _ _ _ _ _))
    (fun _ n'' h'' => ?_) fun _ n'' h'' => hnew.silent h''
  exact ⟨hnew.silent h'', h''.rules⟩

/-- `ApplyCommittedPolicy` ends with the rules in place, or throws before or after it put them
there. -/
theorem wp_applyCommittedPolicy (policy : PendingIgnorePolicy H) (n : Node H) :
    Wp (applyCommittedPolicy policy)
      (fun _ n' => Installs policy.rules n n' ∧
        blake3 n'.folder.rules = blake3 (H := H) policy.rules ∧
        n'.policyHash = some (blake3 policy.rules))
      (fun _ n' => Installs policy.rules n n') n := by
  have hstart : Installs policy.rules n n := (refl_of Silent n).installs
  rw [applyCommittedPolicy, wp_bind]
  refine wp_check (fun _ _ => hstart) fun hash hhash => ?_
  rw [rulesHash_eq_ok hhash]
  have hinstall : Wp (installPolicy policy (blake3 n.folder.rules))
      (fun _ n' => Installs policy.rules n n' ∧
        blake3 n'.folder.rules = blake3 (H := H) policy.rules)
      (fun _ n' => Installs policy.rules n n') n := by
    refine wp_ite (fun _ => ?_) fun hsame => ?_
    · refine wp_mono (wp_applyPolicy _ _ _ n) (fun _ n' h => ⟨h.1, ?_⟩) fun _ _ h => h
      rw [h.2]
    rw [wp_bind]
    refine wp_mono (wp_synchronizePolicy n) (fun _ n' h => ⟨h.1.installs, ?_⟩)
      fun _ n' h => h.installs
    rw [h.1.rules]
    exact not_not.mp hsame
  rw [wp_bind]
  refine wp_mono hinstall (fun _ n' h => ?_) fun _ _ h => h
  exact ⟨h.1.silent ⟨rfl, le_rfl, rfl, rfl, rfl, rfl, rfl⟩, h.2, rfl⟩

/-! ## Moves of a node

For each handler the same thing is said: however it ends, what has happened is one of the moves of
the party.  A handler writes to the database, writes the file, sends a message, in this order or
another, and may throw after any of them; the order is what makes each of the possible ends a
move. -/

/-- What a proposal is after, by its hash. -/
def proposedHash (m : IgnorePolicyMessage H) : H := blake3 m.rules

/-- What happened to the node is a move of its party, with the proposals `fresh` to choose from.
POLICY_HELLO is sent once in a session, and a manifest only when the step leaves nothing pending. -/
structure PolicyMove (fresh : Set (IgnorePolicyMessage H))
    (input : Option (Kind × IgnorePolicyMessage H)) (n n' : Node H) : Prop where
  identity : n'.identity = n.identity
  uuids : n.uuidsUsed ≤ n'.uuidsUsed
  unused : fresh ⊆ n'.usedProposals \ n.usedProposals
  sends : ∃ frames, Sent frames n n' ∧
    Move proposedHash fresh n.party input n'.party (negotiation frames) ∧
    (∀ m, .policy .hello m ∈ frames → n.receivedHello = false) ∧
    (manifests frames ≠ [] → n'.policyPending = false)

section PolicyMove

variable {fresh : Set (IgnorePolicyMessage H)} {input : Option (Kind × IgnorePolicyMessage H)}
  {n n' n'' : Node H}

theorem PolicyMove.intro {r r' : TwoPhase.Record (IgnorePolicyMessage H)}
    {l : List (Frame H)} {c' : H} (hidentity : n'.identity = n.identity)
    (huuids : n.uuidsUsed ≤ n'.uuidsUsed) (hr : n.policyRecord = r) (hr' : n'.policyRecord = r')
    (hc' : blake3 n'.folder.rules = c') (hsent : Sent l n n')
    (hhello : ∀ m, .policy .hello m ∈ l → n.receivedHello = false)
    (hmanifests : manifests l = [])
    (h : Move proposedHash ∅ ⟨r, blake3 n.folder.rules⟩ input ⟨r', c'⟩ (negotiation l)) :
    PolicyMove ∅ input n n' := by
  subst hr hr' hc'
  exact ⟨hidentity, huuids, Set.empty_subset _, l, hsent, h, hhello,
    fun hne => absurd hmanifests hne⟩

/-- The same for a step that sends nothing. -/
theorem PolicyMove.of_nil {r s : TwoPhase.Record (IgnorePolicyMessage H)} {c' : H}
    (hidentity : n'.identity = n.identity) (huuids : n.uuidsUsed ≤ n'.uuidsUsed)
    (hr : n.policyRecord = r) (hr' : n'.policyRecord = s) (hc' : blake3 n'.folder.rules = c')
    (hsent : Sent [] n n')
    (h : Move proposedHash ∅ ⟨r, blake3 n.folder.rules⟩ input ⟨s, c'⟩ []) :
    PolicyMove ∅ input n n' :=
  .intro hidentity huuids hr hr' hc' hsent nofun rfl h

/-- The same for a step that sends one message. -/
theorem PolicyMove.of_one {r r' : TwoPhase.Record (IgnorePolicyMessage H)} {c' : H}
    {type : PolicyFrame} {kind : Kind} {message : IgnorePolicyMessage H}
    (hkind : type.kind = some kind) (hidentity : n'.identity = n.identity)
    (huuids : n.uuidsUsed ≤ n'.uuidsUsed) (hr : n.policyRecord = r) (hr' : n'.policyRecord = r')
    (hc' : blake3 n'.folder.rules = c') (hsent : Sent [.policy type message] n n')
    (h : Move proposedHash ∅ ⟨r, blake3 n.folder.rules⟩ input ⟨r', c'⟩ [(kind, message)]) :
    PolicyMove ∅ input n n' := by
  refine .intro hidentity huuids hr hr' hc' hsent (fun m hm => ?_) rfl ?_
  · cases List.mem_singleton.mp hm
    cases hkind
  · rwa [show negotiation [.policy type message] = [(kind, message)] by
      simp [negotiation, Frame.negotiation, hkind]]

omit [ContentHash H] in
theorem policyRecord_congr (hidentity : n'.identity = n.identity)
    (hpending : n'.db.pendingPolicy = n.db.pendingPolicy) : n'.policyRecord = n.policyRecord := by
  rw [policyRecord, policyRecord, hpending,
    show n'.config = n.config from congrArg Prod.fst hidentity]

omit [ContentHash H] in
theorem usedProposals_mono (hidentity : n'.identity = n.identity)
    (huuids : n.uuidsUsed ≤ n'.uuidsUsed) : n.usedProposals ⊆ n'.usedProposals := by
  rintro m ⟨i, hi, hm⟩
  exact ⟨i, hi.trans_le huuids, by rw [show n'.uuid = n.uuid from congrArg Prod.snd hidentity, hm]⟩

theorem PolicyIdle.party_eq (h : PolicyIdle n n') : n'.party = n.party := by
  rw [party, party, policyRecord_congr h.identity h.pending, h.rules]

omit [ContentHash H] in
theorem negotiation_eq_nil {frames : List (Frame H)} (h : ∀ f ∈ frames, ¬ f.IsPolicy) :
    negotiation frames = [] := by
  refine List.filterMap_eq_nil_iff.mpr fun f hf => ?_
  cases f with
  | policy type m => exact absurd trivial (h _ hf)
  | _ => rfl

theorem PolicyIdle.move (h : PolicyIdle n n') : PolicyMove ∅ input n n' := by
  obtain ⟨frames, hsent, hpolicy, hgate⟩ := h.sends
  refine ⟨h.identity, h.uuids, Set.empty_subset _, frames, hsent, ?_,
    fun m hm => absurd trivial (hpolicy _ hm),
    fun hne => policyPending_congr h.pending ▸ hgate hne⟩
  rw [h.party_eq, negotiation_eq_nil hpolicy]
  exact .idle

/-- A move stays one when something idle follows it. -/
theorem PolicyMove.idle {m : Node H} (h : PolicyMove fresh input n m) (h' : PolicyIdle m n') :
    PolicyMove fresh input n n' := by
  obtain ⟨hidentity, huuids, hfresh, frames, hsent, hmove, hhello, hgate⟩ := h
  obtain ⟨frames', hsent', hpolicy', hgate'⟩ := h'.sends
  have hpending := policyPending_congr h'.pending
  refine ⟨h'.identity.trans hidentity, huuids.trans h'.uuids, ?_, frames ++ frames',
    hsent.trans hsent', ?_, fun m hm => ?_, fun hne => ?_⟩
  · exact hfresh.trans (Set.sdiff_subset_sdiff_left (usedProposals_mono h'.identity h'.uuids))
  · rw [h'.party_eq, negotiation_append, negotiation_eq_nil hpolicy', List.append_nil]
    exact hmove
  · rcases List.mem_append.mp hm with hm | hm
    · exact hhello m hm
    · exact absurd trivial (hpolicy' _ hm)
  · by_cases hframes : manifests frames = []
    · rw [manifests_append, hframes, List.nil_append] at hne
      exact hpending ▸ hgate' hne
    · exact hpending ▸ hgate hframes

/-- A move stays one when something silent precedes it. -/
theorem Silent.trans_move (h : Silent n n') (h' : PolicyMove fresh input n' n'') :
    PolicyMove fresh input n n'' := by
  obtain ⟨hidentity, huuids, hfresh, frames, hsent, hmove, hhello, hgate⟩ := h'
  refine ⟨hidentity.trans h.identity, h.uuids.trans huuids, ?_, frames, h.sent.trans hsent, ?_,
    fun m hm => h.receivedHello ▸ hhello m hm, hgate⟩
  · exact hfresh.trans (Set.sdiff_subset_sdiff_right (usedProposals_mono h.identity h.uuids))
  · rwa [h.idle.party_eq] at hmove

/-- A new proposal that is written down before it is sent. -/
theorem PolicyMove.propose {m : IgnorePolicyMessage H} (hr : ¬ n.policyRecord.Pending)
    (hidentity : n'.identity = n.identity) (huuids : n.uuidsUsed ≤ n'.uuidsUsed)
    (hm : m ∈ n'.usedProposals \ n.usedProposals) (hr' : n'.policyRecord = .proposed m)
    (hrules : n'.folder.rules = n.folder.rules) (hhello : n'.receivedHello = n.receivedHello)
    (hsent : Sent [] n n') (h : PolicyMove ∅ none n' n'') : PolicyMove {m} none n n'' := by
  obtain ⟨hidentity', huuids', -, frames, hsent', hmove, hhello', hgate⟩ := h
  obtain ⟨hparty, hpropose⟩ := hmove.of_proposed hr'
  refine ⟨hidentity'.trans hidentity, huuids.trans huuids', ?_, frames, hsent.trans hsent', ?_,
    fun m hm => hhello ▸ hhello' m hm, hgate⟩
  · exact Set.singleton_subset_iff.mpr ⟨usedProposals_mono hidentity' huuids' hm.1, hm.2⟩
  · rw [hparty, party, party, hr', hrules]
    exact .propose hr rfl hpropose

omit [ContentHash H] in
theorem Installs.record_eq {rules : Bytes} (h : Installs rules n n') :
    n'.policyRecord = n.policyRecord := policyRecord_congr h.identity h.pending

theorem Installs.content_hash {m : IgnorePolicyMessage H} (h : Installs m.rules n n') :
    blake3 n'.folder.rules = blake3 (H := H) n.folder.rules ∨
      blake3 n'.folder.rules = proposedHash m :=
  h.content.imp (congrArg blake3) (congrArg blake3)

theorem within_silent_bind {α β : Type} {m : NodeM H α} {f : α → NodeM H β}
    (hm : Within Silent m) (hf : ∀ a, Within (PolicyMove ∅ input) (f a)) :
    Within (PolicyMove ∅ input) (m >>= f) :=
  within_bind_of hm hf (fun _ _ h => h.idle.move) fun _ _ _ h h' => h.trans_move h'

theorem within_bind_idle {α β : Type} {m : NodeM H α} {f : α → NodeM H β}
    (hm : Within (PolicyMove ∅ input) m) (hf : ∀ a, Within PolicyIdle (f a)) :
    Within (PolicyMove ∅ input) (m >>= f) :=
  within_bind_of hm hf (fun _ _ h => h) fun _ _ _ h h' => h.idle h'

end PolicyMove

section Handlers

variable {input : Option (Kind × IgnorePolicyMessage H)}

omit [ContentHash H] in
theorem policyRecord_own {n : Node H} {pending : PendingIgnorePolicy H}
    (hpending : n.db.pendingPolicy = some pending)
    (horigin : pending.originDeviceId = n.config.deviceId) :
    n.policyRecord = match pending.state with
      | .committed => .decided pending.message
      | .applied => .finished pending.message
      | _ => .proposed pending.message := by
  rw [policyRecord, hpending]
  exact if_pos horigin

omit [ContentHash H] in
theorem policyRecord_guest {n : Node H} {pending : PendingIgnorePolicy H}
    (hpending : n.db.pendingPolicy = some pending)
    (horigin : pending.originDeviceId ≠ n.config.deviceId) :
    n.policyRecord = match pending.state with
      | .committed => .accepted pending.message
      | .applied => .settled pending.message
      | _ => .prepared pending.message := by
  rw [policyRecord, hpending]
  exact if_neg horigin

omit [ContentHash H] in
theorem policyRecord_saved {n n' : Node H} {pending : PendingIgnorePolicy H}
    (hidentity : n'.identity = n.identity) (hpending : n'.db.pendingPolicy = some pending) :
    n'.policyRecord = pending.record n.config.deviceId := by
  rw [policyRecord, hpending, show n'.config = n.config from congrArg Prod.fst hidentity]

omit [ContentHash H] in
theorem policyRecord_open {n : Node H} {pending : PendingIgnorePolicy H}
    (hpending : n.db.pendingPolicy = some pending)
    (horigin : pending.originDeviceId = n.config.deviceId) (hstate : pending.state ≠ .applied) :
    n.policyRecord.Open pending.message := by
  rw [policyRecord_own hpending horigin]
  cases h : pending.state with
  | proposed => exact .inl rfl
  | prepared => exact .inl rfl
  | committed => exact .inr rfl
  | applied => exact absurd h hstate

omit [ContentHash H] in
theorem policyRecord_prepared {n : Node H} {pending : PendingIgnorePolicy H}
    (hpending : n.db.pendingPolicy = some pending)
    (horigin : pending.originDeviceId ≠ n.config.deviceId) (hstate : pending.state ≠ .applied) :
    n.policyRecord = .prepared pending.message ∨ n.policyRecord = .accepted pending.message := by
  rw [policyRecord_guest hpending horigin]
  cases h : pending.state with
  | proposed => exact .inl rfl
  | prepared => exact .inl rfl
  | committed => exact .inr rfl
  | applied => exact absurd h hstate

theorem not_pending_of_policyPending {n : Node H} (h : n.policyPending = false) :
    ¬ n.policyRecord.Pending := by
  rw [policyPending] at h
  rw [policyRecord]
  cases hpending : n.db.pendingPolicy with
  | none => nofun
  | some pending =>
    have hstate : pending.state = .applied := by
      simpa [Database.findPendingIgnorePolicy, hpending] using h
    simp only [PendingIgnorePolicy.record, hstate]
    split
    · nofun
    · nofun

theorem matchesMessage_iff {pending : PendingIgnorePolicy H} {message : IgnorePolicyMessage H} :
    matchesMessage pending message = true ↔ pending.message = message := by
  cases message
  simp [matchesMessage, PendingIgnorePolicy.message, and_assoc]

theorem filter_matchesMessage {n : Node H} {pending : PendingIgnorePolicy H}
    {message : IgnorePolicyMessage H}
    (h : (n.db.findPendingIgnorePolicy.filter fun p => matchesMessage p message) = some pending) :
    n.db.pendingPolicy = some pending ∧ pending.message = message := by
  rw [Option.filter_eq_some_iff] at h
  exact ⟨h.1, matchesMessage_iff.mp h.2⟩

/-- The retry timer repeats a proposal, or carries on with a decision. -/
theorem policyMove_retryPolicy : Within (PolicyMove ∅ input) (retryPolicy (H := H)) := by
  refine within_of_wp fun n => ?_
  have hidle : PolicyMove ∅ input n n := (refl_of Silent n).idle.move
  rw [retryPolicy, wp_bind, wp_state]
  refine wp_ite (fun _ => hidle) fun _ => ?_
  split
  · exact hidle
  rename_i pending hpending
  refine wp_ite (fun _ => hidle) fun hopen => ?_
  push Not at hopen
  have hrecord := policyRecord_own hpending hopen.2
  rw [wp_bind]
  by_cases hcommitted : pending.state = .committed
  · rw [hcommitted] at hrecord
    rw [when, if_pos hcommitted, if_pos hcommitted]
    refine wp_mono (wp_applyCommittedPolicy pending n) (fun _ n' h => ?_) fun _ n' h => ?_
    · rw [wp_bind, wp_send, wp_update]
      refine PolicyMove.idle (m := { n' with out := n'.out ++ [.policy .commit pending.message] })
        (.of_one rfl h.1.identity h.1.uuids hrecord (h.1.record_eq.trans hrecord) rfl
          (h.1.sent.trans (.one rfl n')) (.install (h.1.content_hash (m := pending.message)) ?_)) ?_
      · simp
      · exact Silent.idle ⟨rfl, le_rfl, rfl, rfl, rfl, rfl, rfl⟩
    · exact .of_nil h.identity h.uuids hrecord (h.record_eq.trans hrecord) rfl h.sent
        (.install (h.content_hash (m := pending.message)) nofun)
  · have hproposed : n.policyRecord = .proposed pending.message := by
      rw [hrecord]
      cases hstate : pending.state <;> simp_all
    rw [when, if_neg hcommitted, wp_pure, wp_bind, wp_send, wp_update, if_neg hcommitted]
    refine PolicyMove.idle (m := { n with out := n.out ++ [.policy .propose pending.message] })
      (.of_one rfl rfl le_rfl hproposed hproposed rfl (.one rfl n) .retry) ?_
    exact Silent.idle ⟨rfl, le_rfl, rfl, rfl, rfl, rfl, rfl⟩

/-- A new proposal is stored and sent. -/
theorem policyMove_proposeIgnorePolicy (expectedHash : H) (rules : Bytes)
    (source : PolicySource) {n : Node H} (huuid : Function.Injective n.uuid) :
    ∃ fresh, PolicyMove fresh none n (proposeIgnorePolicy expectedHash rules source n).2 := by
  refine of_wp (I := fun n' => ∃ fresh, PolicyMove fresh none n n') ?_
  have hidle : ∃ fresh, PolicyMove fresh none n n := ⟨∅, (refl_of Silent n).idle.move⟩
  rw [proposeIgnorePolicy, wp_bind]
  refine wp_check (fun _ _ => hidle) fun _ _ => ?_
  rw [wp_bind, wp_state]
  refine wp_ite (fun _ => hidle) fun _ => wp_ite (fun _ => hidle) fun hpending =>
    wp_ite (fun _ => hidle) fun _ => ?_
  rw [wp_bind]
  refine wp_check (fun _ _ => hidle) fun hash _ => wp_ite (fun _ => hidle) fun _ => ?_
  rw [wp_bind, wp_newUuidV4, wp_bind]
  have hdrawn : Silent n { n with uuidsUsed := n.uuidsUsed + 1 } :=
    ⟨rfl, Nat.le_succ _, rfl, rfl, rfl, rfl, rfl⟩
  refine wp_dbDo ⟨∅, hdrawn.idle.move⟩
    (fun _ _ => ⟨∅, (trans_of Silent hdrawn (silent_spend _)).idle.move⟩) fun db hdb => ?_
  cases hdb
  rw [wp_bind, wp_update]
  refine wp_of ⟨_, PolicyMove.propose (m := ⟨n.uuid n.uuidsUsed, expectedHash, rules, source⟩)
    (not_pending_of_policyPending (by simpa using hpending)) ?_ ?_ ⟨?_, ?_⟩ ?_ ?_ ?_ ?_
    (policyMove_retryPolicy _)⟩
  · rfl
  · exact Nat.le_succ _
  · exact ⟨n.uuidsUsed, Nat.lt_succ_self _, rfl⟩
  · rintro ⟨i, hi, heq⟩
    exact hi.ne (huuid heq)
  · exact if_pos rfl
  · rfl
  · rfl
  · exact ⟨(List.append_nil _).symm, rfl⟩

theorem policyMove_handlePolicyHello (message : IgnorePolicyMessage H) :
    Within (PolicyMove ∅ input) (handlePolicyHello message) := by
  refine within_silent_bind within_state fun n => within_silent_bind (within_check _) fun hash => ?_
  refine within_ite (fun _ n => (refl_of Silent n).idle.move) fun _ => ?_
  refine within_silent_bind (within_update fun n => ?_) fun _ => ?_
  · exact ⟨rfl, le_rfl, rfl, rfl, rfl, rfl, rfl⟩
  · exact within_bind_idle policyMove_retryPolicy fun _ => policyIdle_sendManifest

/-- A proposal of the other party is answered, turned down, or prepared. -/
theorem policyMove_handlePolicyPropose (message : IgnorePolicyMessage H) {n : Node H}
    (hpeer : n.config.deviceId ≠ n.config.peerDeviceId) :
    PolicyMove ∅ (some (.propose, message)) n (handlePolicyPropose message n).2 := by
  refine of_wp ?_
  have hidle : PolicyMove ∅ (some (.propose, message)) n n := (refl_of Silent n).idle.move
  rw [handlePolicyPropose, wp_bind, wp_state]
  split
  · rename_i pending hfilter
    obtain ⟨hpending, rfl⟩ := filter_matchesMessage hfilter
    refine wp_ite (fun _ => hidle) fun horigin => ?_
    have hguest : pending.originDeviceId ≠ n.config.deviceId := by
      rw [not_not.mp horigin]
      exact hpeer.symm
    rw [wp_send]
    by_cases happlied : pending.state = .applied
    · have hrecord := policyRecord_guest hpending hguest
      rw [happlied] at hrecord
      rw [if_pos happlied]
      exact .of_one rfl rfl le_rfl hrecord hrecord rfl (.one rfl n) (.again (.inl rfl))
    · rw [if_neg happlied]
      exact .of_one rfl rfl le_rfl rfl rfl rfl (.one rfl n)
        (.answer (policyRecord_prepared hpending hguest happlied))
  · rw [wp_bind]
    refine wp_check (fun _ _ => hidle) fun rejected hrejected => wp_ite (fun _ => ?_)
      fun hfalse => ?_
    · rw [wp_send]
      exact .of_one rfl rfl le_rfl rfl rfl rfl (.one rfl n) .turnDown
    refine wp_ite (fun _ => hidle) fun _ => ?_
    have hnot : n.policyPending = false := by
      by_contra hp
      rw [Bool.not_eq_false] at hp
      rw [rejectsProposal, if_pos (by simp [hp])] at hrejected
      cases hrejected
      exact hfalse rfl
    rw [wp_bind]
    refine wp_dbDo hidle (fun _ _ => (silent_spend n).idle.move) fun db hdb => ?_
    cases hdb
    rw [wp_send]
    refine PolicyMove.of_one (show PolicyFrame.ack.kind = some .ack from rfl) ?_ ?_ rfl
      (if_neg hpeer.symm) ?_ ?_ (.prepare (not_pending_of_policyPending hnot))
    · rfl
    · exact le_rfl
    · rfl
    · exact ⟨rfl, rfl⟩

/-- A rejection ends a proposal that is still open. -/
theorem policyMove_handlePolicyReject {pending : PendingIgnorePolicy H} {n : Node H}
    (hpending : n.db.pendingPolicy = some pending) :
    PolicyMove ∅ (some (.reject, pending.message)) n (handlePolicyReject pending n).2 := by
  refine of_wp ?_
  have hidle : PolicyMove ∅ (some (.reject, pending.message)) n n := (refl_of Silent n).idle.move
  rw [handlePolicyReject, wp_bind, wp_state]
  refine wp_ite (fun hown => ?_) fun _ => hidle
  have hrecord := policyRecord_own hpending hown.1
  rw [hown.2] at hrecord
  refine wp_dbDo hidle (fun _ _ => (silent_spend n).idle.move) fun db hdb => ?_
  cases hdb
  refine .of_nil (s := .idle) ?_ ?_ hrecord ?_ ?_ ?_ .clear
  · rfl
  · exact le_rfl
  · rfl
  · rfl
  · exact ⟨(List.append_nil _).symm, rfl⟩

/-- An acknowledgement is the decision. -/
theorem policyMove_handlePolicyAck {pending : PendingIgnorePolicy H} {n : Node H}
    (hpending : n.db.pendingPolicy = some pending) :
    PolicyMove ∅ (some (.ack, pending.message)) n (handlePolicyAck pending pending.message
      n).2 := by
  refine of_wp ?_
  have hidle : PolicyMove ∅ (some (.ack, pending.message)) n n := (refl_of Silent n).idle.move
  rw [handlePolicyAck, wp_bind, wp_state]
  refine wp_ite (fun _ => hidle) fun hown => ?_
  push Not at hown
  have hopen := policyRecord_open hpending hown.1 hown.2
  have hdecided : ∀ n' : Node H, n'.identity = n.identity →
      n'.db.pendingPolicy = some { pending with state := .committed } →
      n'.policyRecord = .decided pending.message := fun n' hidentity hpending' =>
    (policyRecord_saved hidentity hpending').trans (if_pos hown.1)
  rw [wp_bind]
  refine wp_dbDo hidle (fun _ _ => (silent_spend n).idle.move) fun db hdb => ?_
  cases hdb
  rw [wp_bind]
  refine wp_mono (wp_applyCommittedPolicy pending _) (fun _ n' h => ?_) fun _ n' h => ?_
  · rw [wp_send]
    refine .of_one rfl h.1.identity h.1.uuids rfl (hdecided _ h.1.identity h.1.pending) rfl
      ⟨congrArg (· ++ [Frame.policy .commit pending.message]) (h.1.sent.out.trans ?_),
        h.1.sent.manifest⟩
      (.decide_of_open hopen (h.1.content_hash (m := pending.message)) (by simp))
    exact List.append_nil _
  · exact .of_nil h.identity h.uuids rfl (hdecided _ h.identity h.pending) rfl
      ⟨h.sent.out, h.sent.manifest⟩
      (.decide_of_open hopen (h.content_hash (m := pending.message)) nofun)

theorem policyIdle_finishPolicy : Within PolicyIdle (finishPolicy (H := H)) := by
  refine within_bind (within_update fun n => ?_) fun _ => within_bind (within_check _)
    fun hash => ?_
  · exact Silent.idle ⟨rfl, le_rfl, rfl, rfl, rfl, rfl, rfl⟩
  · refine within_bind (within_update fun n => ?_) fun _ => policyIdle_refreshLocal
    exact Silent.idle ⟨rfl, le_rfl, rfl, rfl, rfl, rfl, rfl⟩

/-- The other party's decision is written down, installed and confirmed. -/
theorem policyMove_handlePolicyCommit {pending : PendingIgnorePolicy H} {n : Node H}
    (hpending : n.db.pendingPolicy = some pending)
    (hpeer : n.config.deviceId ≠ n.config.peerDeviceId) :
    PolicyMove ∅ (some (.commit, pending.message)) n
      (handlePolicyCommit pending pending.message n).2 := by
  refine of_wp ?_
  have hidle : PolicyMove ∅ (some (.commit, pending.message)) n n := (refl_of Silent n).idle.move
  rw [handlePolicyCommit, wp_bind, wp_state]
  refine wp_ite (fun _ => hidle) fun horigin => ?_
  have hguest : pending.originDeviceId ≠ n.config.deviceId := by
    rw [not_not.mp horigin]
    exact hpeer.symm
  -- whatever comes after the answer is idle
  have hfinish : ∀ n' : Node H,
      PolicyMove ∅ (some (.commit, pending.message)) n
        { n' with out := n'.out ++ [.policy .done pending.message] } →
      Wp (do send (.policy .done pending.message); finishPolicy)
        (fun _ => PolicyMove ∅ (some (.commit, pending.message)) n)
        (fun _ => PolicyMove ∅ (some (.commit, pending.message)) n) n' := by
    intro n' h
    rw [wp_bind, wp_send]
    exact wp_of (h.idle (policyIdle_finishPolicy _))
  rw [wp_bind]
  by_cases happlied : pending.state = .applied
  · rw [when, if_neg (not_not.mpr happlied), wp_pure]
    have hrecord := policyRecord_guest hpending hguest
    rw [happlied] at hrecord
    exact hfinish n (.of_one rfl rfl le_rfl hrecord hrecord rfl (.one rfl n) (.again (.inr rfl)))
  have hprepared := policyRecord_prepared hpending hguest happlied
  -- the commit has been recorded; it may fail while the file is written
  have haccept : ∀ n' : Node H, n'.identity = n.identity → n.uuidsUsed ≤ n'.uuidsUsed →
      n'.db.pendingPolicy = some { pending with state := .committed } →
      blake3 n'.folder.rules = blake3 (H := H) n.folder.rules ∨
        blake3 n'.folder.rules = proposedHash pending.message →
      Sent [] n n' → PolicyMove ∅ (some (.commit, pending.message)) n n' :=
    fun n' hidentity huuids hpending' hcontent hsent =>
      .of_nil hidentity huuids rfl ((policyRecord_saved hidentity hpending').trans (if_neg hguest))
        rfl hsent (.accept hprepared hcontent)
  have hsettled : ∀ n' : Node H, n'.identity = n.identity →
      n'.db.pendingPolicy = some { pending with state := .applied } →
      n'.policyRecord = .settled pending.message := fun n' hidentity hpending' =>
    (policyRecord_saved hidentity hpending').trans (if_neg hguest)
  rw [when, if_pos happlied, wp_bind]
  refine wp_dbDo hidle (fun _ _ => (silent_spend n).idle.move) fun db hdb => ?_
  cases hdb
  rw [wp_bind]
  refine wp_mono (wp_applyCommittedPolicy pending _) (fun _ n' h => ?_) fun _ n' h =>
    haccept n' h.identity h.uuids h.pending (h.content_hash (m := pending.message))
      ⟨h.sent.out, h.sent.manifest⟩
  obtain ⟨h, hcontent, -⟩ := h
  have hsent : Sent [] n n' := ⟨h.sent.out, h.sent.manifest⟩
  have haccepted := haccept n' h.identity h.uuids h.pending
    (h.content_hash (m := pending.message)) hsent
  refine wp_dbDo haccepted (fun _ _ => haccepted.idle (silent_spend n').idle) fun db hdb => ?_
  cases hdb
  refine hfinish _ (PolicyMove.of_one (show PolicyFrame.done.kind = some .done from rfl) h.identity
    h.uuids rfl (hsettled _ h.identity rfl) hcontent ⟨?_, hsent.manifest⟩ (.settle hprepared))
  exact congrArg (· ++ [Frame.policy .done pending.message]) (hsent.out.trans (List.append_nil _))

/-- A receipt ends the negotiation once the rules are in place. -/
theorem policyMove_handlePolicyDone {pending : PendingIgnorePolicy H} {n : Node H}
    (hpending : n.db.pendingPolicy = some pending) :
    PolicyMove ∅ (some (.done, pending.message)) n (handlePolicyDone pending n).2 := by
  refine of_wp ?_
  have hidle : PolicyMove ∅ (some (.done, pending.message)) n n := (refl_of Silent n).idle.move
  rw [handlePolicyDone, wp_bind, wp_state]
  refine wp_ite (fun _ => hidle) fun horigin => ?_
  rw [not_not] at horigin
  have hfinish : ∀ n' : Node H, PolicyMove ∅ (some (.done, pending.message)) n n' →
      Wp finishPolicy (fun _ => PolicyMove ∅ (some (.done, pending.message)) n)
        (fun _ => PolicyMove ∅ (some (.done, pending.message)) n) n' :=
    fun n' h => wp_of (h.idle (policyIdle_finishPolicy _))
  rw [wp_bind]
  by_cases happlied : pending.state = .applied
  · rw [when, if_neg (not_not.mpr happlied), wp_pure]
    exact hfinish n hidle
  have hopen := policyRecord_open hpending horigin happlied
  have hreceipt : ∀ n' : Node H, Installs pending.rules n n' →
      PolicyMove ∅ (some (.done, pending.message)) n n' := fun n' h =>
    .of_nil h.identity h.uuids rfl h.record_eq rfl h.sent
      (.receipt hopen (h.content_hash (m := pending.message)))
  have hfinished : ∀ n' : Node H, n'.identity = n.identity →
      n'.db.pendingPolicy = some { pending with state := .applied } →
      n'.policyRecord = .finished pending.message := fun n' hidentity hpending' =>
    (policyRecord_saved hidentity hpending').trans (if_pos horigin)
  rw [when, if_pos happlied, wp_bind]
  refine wp_mono (wp_applyCommittedPolicy pending n) (fun _ n' h => ?_) fun _ n' h =>
    hreceipt n' h
  obtain ⟨h, hcontent, -⟩ := h
  refine wp_dbDo (hreceipt n' h) (fun _ _ => (hreceipt n' h).idle (silent_spend n').idle)
    fun db hdb => ?_
  cases hdb
  exact hfinish _ (.of_nil h.identity h.uuids rfl (hfinished _ h.identity rfl) hcontent
    ⟨h.sent.out, h.sent.manifest⟩ (.finish hopen))

/-- **Every policy frame makes a move of the party.**  Handler by handler, with every point at which
one can end. -/
theorem policyMove_handlePolicy (type : PolicyFrame) (message : IgnorePolicyMessage H)
    {n : Node H} (hpeer : n.config.deviceId ≠ n.config.peerDeviceId) :
    PolicyMove ∅ (type.kind.map fun kind => (kind, message)) n (handlePolicy type message n).2 := by
  refine of_wp ?_
  have hidle : PolicyMove ∅ (type.kind.map fun kind => (kind, message)) n n :=
    (refl_of Silent n).idle.move
  refine wp_ite (fun _ => wp_of (policyMove_handlePolicyHello message n)) fun hhello =>
    wp_ite (fun _ => hidle) fun _ => ?_
  rw [wp_bind]
  refine wp_check (fun _ _ => hidle) fun _ _ => wp_ite (fun hpropose => ?_) fun hpropose => ?_
  · subst hpropose
    exact wp_of (policyMove_handlePolicyPropose message hpeer)
  rw [handlePolicyAnswer, wp_bind, wp_state]
  split
  · exact wp_ite (fun _ => hidle) fun _ => hidle
  rename_i pending hfilter
  obtain ⟨hpending, rfl⟩ := filter_matchesMessage hfilter
  cases type with
  | hello => exact absurd rfl hhello
  | propose => exact absurd rfl hpropose
  | reject => exact wp_of (policyMove_handlePolicyReject hpending)
  | ack => exact wp_of (policyMove_handlePolicyAck hpending)
  | commit => exact wp_of (policyMove_handlePolicyCommit hpending hpeer)
  | done => exact wp_of (policyMove_handlePolicyDone hpending)

end Handlers

/-! ## Whole steps -/

section Steps

variable {n : Node H}

omit [ContentHash H] in
theorem silent_env (n : Node H) (env : Environment) : Silent n { n with env := env } :=
  ⟨rfl, le_rfl, rfl, rfl, rfl, rfl, rfl⟩

/-- The first HELLO is answered, and the rule file announced. -/
theorem policyMove_receiveHello (hello : Hello) :
    PolicyMove ∅ none n (receiveHello (H := H) hello n).2 := by
  refine of_wp ?_
  rw [receiveHello, wp_bind, wp_state]
  refine wp_ite (fun _ => (refl_of Silent n).idle.move) fun _ => ?_
  rw [wp_bind, wp_update]
  refine wp_ite (fun _ => ?_) fun hfirst => ?_
  · exact .of_nil rfl le_rfl rfl rfl rfl ⟨(List.append_nil _).symm, rfl⟩ .idle
  rw [wp_bind, wp_send, sendPolicyHello, wp_bind, wp_state, wp_bind]
  refine wp_check (fun _ _ => ?_) fun hash _ => ?_
  · exact .intro rfl le_rfl rfl rfl rfl (l := [.hello (helloOf n.config)]) ⟨rfl, rfl⟩
      (by simp) rfl .idle
  · rw [wp_send]
    refine .intro rfl le_rfl rfl rfl rfl (l := [.hello (helloOf n.config), .policy .hello _])
      ⟨List.append_assoc _ _ _, rfl⟩ (fun _ _ => ?_) rfl .idle
    simpa using hfirst

theorem policyIdle_receiveGated (frame : Frame H) : Within PolicyIdle (receiveGated frame) := by
  refine within_bind within_state fun n => within_ite (fun _ => within_raise _) fun _ => ?_
  refine within_ite (fun _ => within_update fun n => ?_) fun _ => ?_
  · exact Silent.idle ⟨rfl, le_rfl, rfl, rfl, rfl, rfl, rfl⟩
  · exact policyIdle_moves.receiveData frame

theorem policyIdle_start : Within PolicyIdle (start (H := H)) := by
  refine within_bind within_state fun n => within_ite (fun _ => within_pure _) fun _ => ?_
  refine within_bind (within_update fun n => ?_) fun _ => ?_
  · exact Silent.idle ⟨rfl, le_rfl, rfl, rfl, rfl, rfl, rfl⟩
  refine within_bind (fun n => (silent_synchronizePolicy n).idle) fun _ => ?_
  refine within_bind (within_update fun n => ?_) fun _ => ?_
  · exact Silent.idle ⟨rfl, le_rfl, rfl, rfl, rfl, rfl, rfl⟩
  exact within_bind policyIdle_refreshLocal fun _ => policyIdle_send id rfl

/-- The message an event brings. -/
def eventNegotiation : Event H → Option (Kind × IgnorePolicyMessage H)
  | .receive _ .control frame => frame.negotiation
  | _ => none

theorem policyMove_pump : Within (PolicyMove ∅ none) (pump (H := H)) := by
  refine within_silent_bind within_state fun n => within_bind_idle ?_ fun _ => ?_
  · exact within_ite (fun _ => policyMove_retryPolicy) fun _ n => (refl_of Silent n).idle.move
  refine within_bind within_state fun n => within_ite (fun _ => within_pure _) fun _ => ?_
  exact within_bind (policyIdle_moves.pumpUploads _ _) fun _ =>
    within_forM fun i _ => policyIdle_moves.pumpDownload i

/-- Only a proposal makes up a new text. -/
theorem policyMove_call (huuid : Function.Injective n.uuid) (c : Call H) :
    ∃ fresh, PolicyMove fresh none n (n.call c) ∧ (¬ c.IsPropose → fresh = ∅) := by
  have hidle : ∀ n', PolicyMove ∅ none n n' →
      ∃ fresh, PolicyMove fresh none n n' ∧ (¬ c.IsPropose → fresh = ∅) :=
    fun n' h => ⟨∅, h, fun _ => rfl⟩
  cases c with
  | start => exact hidle _ (policyIdle_start n).move
  | refreshLocal => exact hidle _ (policyIdle_refreshLocal n).move
  | performScan => exact hidle _ (policyIdle_of_localMove (localMove_performScan n)).move
  | pump => exact hidle _ (policyMove_pump n)
  | propose expectedHash rules source =>
    obtain ⟨fresh, h⟩ := policyMove_proposeIgnorePolicy expectedHash rules source huuid
    exact ⟨fresh, h, fun hpropose => absurd trivial hpropose⟩
  | edit folder =>
    have h : Silent n (n.edit folder) := ⟨rfl, le_rfl, rfl, rfl, rfl, rfl, rfl⟩
    exact hidle _ h.idle.move
  | fault k =>
    have h : Silent n { n with faultAfter := some k } := ⟨rfl, le_rfl, rfl, rfl, rfl, rfl, rfl⟩
    exact hidle _ h.idle.move

theorem policyMove_receive (hpeer : n.config.deviceId ≠ n.config.peerDeviceId) (env : Environment)
    (channel : Channel) (frame : Frame H) :
    PolicyMove ∅ (eventNegotiation (.receive env channel frame)) n (receive channel frame n).2 := by
  have herror : ∀ n' e, PolicyMove ∅ (eventNegotiation (.receive env channel frame)) n n' →
      PolicyMove ∅ (eventNegotiation (.receive env channel frame)) n
        { n' with lastError := some e } :=
    fun n' e h => h.idle (Silent.idle ⟨rfl, le_rfl, rfl, rfl, rfl, rfl, rfl⟩)
  have hidle : PolicyMove ∅ (eventNegotiation (.receive env channel frame)) n n :=
    (refl_of Silent n).idle.move
  have hgated : PolicyMove ∅ (eventNegotiation (.receive env channel frame)) n
      (receiveGated frame n).2 := (policyIdle_receiveGated frame n).move
  refine of_wp (wp_orElse (wp_mono (wp_of ?_) (fun _ _ h => h) fun e n' h => herror n' e h))
  refine of_wp (wp_ite (fun _ => hidle) fun hallowed => wp_of ?_)
  cases frame with
  | malformed e => exact hidle
  | hello hello =>
    have hnone : eventNegotiation (.receive env channel (.hello hello : Frame H)) = none := by
      cases channel <;> rfl
    rw [hnone]
    exact policyMove_receiveHello hello
  | policy type message =>
    obtain rfl : channel = .control := by simpa [Frame.isAllowedOn] using hallowed
    refine of_wp (m := receivePolicy type message) ?_
    rw [receivePolicy, wp_bind, wp_state]
    exact wp_ite (fun _ => hidle) fun _ => wp_of (policyMove_handlePolicy type message hpeer)
  | versionManifest m => exact hgated
  | fileRequest r => exact hgated
  | chunk c => exact hgated
  | cancel c => exact hgated
  | unexpected c => exact hgated
  | undecodable e => exact hgated

/-- **Refinement.**  Whatever happens to a node is a move of its party, with the message that was
delivered and the messages that were sent.  Only a proposal makes up a new text. -/
theorem policyMove_perform (hpeer : n.config.deviceId ≠ n.config.peerDeviceId)
    (huuid : Function.Injective n.uuid) (hout : n.out = []) (e : Event H) :
    ∃ fresh, PolicyMove fresh (eventNegotiation e) n (n.perform e) ∧
      (¬ e.IsPropose → fresh = ∅) := by
  cases e with
  | call env c =>
    obtain ⟨fresh, h, hfresh⟩ := policyMove_call (n := { n with env := env }) huuid c
    exact ⟨fresh, (silent_env n env).trans_move h, hfresh⟩
  | receive env channel frame =>
    exact ⟨∅, (silent_env n env).trans_move
      (policyMove_receive (n := { n with env := env }) hpeer env channel frame), fun _ => rfl⟩
  | restart =>
    exact ⟨∅, .of_nil rfl le_rfl rfl rfl rfl ⟨by rw [hout]; rfl, rfl⟩ .idle, fun _ => rfl⟩

end Steps

end Node

end VeritasSync
