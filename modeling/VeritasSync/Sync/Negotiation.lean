import VeritasSync.Sync.Refresh

/-!
# Negotiating the rule file

Two peers may only filter by the same rules, so a change of the rule file is a two-phase commit.
The proposer stores the proposal and sends PROPOSE; the other peer stores it and answers ACK; the
proposer stores the decision, changes its file and sends COMMIT; the other peer changes its file and
answers DONE.  Until the durable record says `applied`, a node neither sends nor accepts data.

`HandlePolicy` is one function in the source.  Here each frame type has its own definition, and
`handlePolicy` makes the choice.

The durable record is what both sides rely on after a crash, and most handlers begin by comparing
the message with it.  A message that does not match is answered with a rejection or ignored; which
of the two it is differs between the handlers, and so does what is done before the comparison.
-/

set_option autoImplicit false

namespace VeritasSync

namespace Node

variable {H : Type} [ContentHash H]

/-! ## Negotiating the rule file -/

/-- `RetryPolicy`: a proposal of this node is sent again until it is applied, at most twice a
second. -/
def retryPolicy : NodeM H Unit := do
  let n ← Exec.state
  if n.env.steadyNow < n.nextPolicyRetry then pure ()
  else
    match n.db.findPendingIgnorePolicy with
    | none => pure ()
    | some pending =>
      if pending.state = .applied ∨ pending.originDeviceId ≠ n.config.deviceId then pure ()
      else
        Exec.when (pending.state = .committed) (applyCommittedPolicy pending)
        send (.policy (if pending.state = .committed then .commit else .propose)
          ⟨pending.proposalId, pending.baseHash, pending.rules, pending.source⟩)
        Exec.update fun n => { n with nextPolicyRetry := n.env.steadyNow + 500 }

/-- `ProposeIgnorePolicy`.  The proposal is durable before it is sent, and nothing may be under
way. -/
def proposeIgnorePolicy (expectedHash : H) (rules : Bytes) (source : PolicySource) :
    NodeM H Unit := do
  Exec.check fun _ => IgnoreRules.validate rules
  let n ← Exec.state
  if !n.policyReady || !n.handshakeComplete || !n.uploads.isEmpty || !n.downloads.isEmpty then
    Exec.raise (.runtimeError "ignore policy negotiation requires an idle connected peer")
  else if n.policyPending then
    Exec.raise (.runtimeError "ignore policy negotiation is already pending")
  else if !source.known then Exec.raise (.invalidArgument "invalid ignore policy source")
  else
    let currentHash ← Exec.check rulesHash
    if currentHash ≠ expectedHash then
      Exec.raise (.invalidArgument "ignore policy changed; refresh before applying")
    else
      let proposalId ← newUuidV4
      dbDo fun db => .ok (db.savePendingIgnorePolicy
        ⟨proposalId, n.config.deviceId, expectedHash, rules, source, .proposed⟩)
      Exec.update fun n => { n with nextPolicyRetry := 0 }
      retryPolicy

/-- Save the durable proposal with a new state. -/
def savePolicy (policy : PendingIgnorePolicy H) (state : PolicyState) : NodeM H Unit :=
  dbDo fun db => .ok (db.savePendingIgnorePolicy { policy with state := state })

/-- The end of `HandlePolicy` after a COMMIT or a DONE. -/
def finishPolicy : NodeM H Unit := do
  Exec.update fun n => { n with policyReady := true }
  let hash ← Exec.check rulesHash
  Exec.update fun n => { n with policyHash := some hash }
  refreshLocal

/-- `HandlePolicy` for POLICY_HELLO.  Different rule files are an error, unless a proposal that both
know explains them. -/
def handlePolicyHello (message : IgnorePolicyMessage H) : NodeM H Unit := do
  let n ← Exec.state
  let hash ← Exec.check rulesHash
  if hash ≠ message.baseHash ∧
      n.db.findPendingIgnorePolicy.map PendingIgnorePolicy.proposalId ≠ some message.proposalId then
    Exec.raise
      (.runtimeError "peer ignore policies differ; restore matching rules before synchronization")
  else
    Exec.update fun n =>
      { n with
        policyHash := some hash, policyReady := hash = message.baseHash, nextPolicyRetry := 0 }
    retryPolicy
    sendManifest

/-- The durable proposal is the one the message is about. -/
def matchesMessage (pending : PendingIgnorePolicy H) (message : IgnorePolicyMessage H) : Bool :=
  pending.proposalId = message.proposalId && pending.baseHash = message.baseHash &&
    pending.rules = message.rules && pending.source = message.source

/-- A proposal that is not the durable one is turned down while another one is pending or a
transfer is active, and when it was made for another rule file.  The file is only read when nothing
else decides. -/
def rejectsProposal (message : IgnorePolicyMessage H) (n : Node H) : Except Error Bool :=
  if n.policyPending || !n.uploads.isEmpty || !n.downloads.isEmpty then .ok true
  else n.rulesHash.map fun hash => decide (hash ≠ message.baseHash)

/-- `HandlePolicy` for PROPOSE.  A proposal that is the durable one already is acknowledged again;
another one has to find the node idle and at the same rules. -/
def handlePolicyPropose (message : IgnorePolicyMessage H) : NodeM H Unit := do
  let n ← Exec.state
  match n.db.findPendingIgnorePolicy.filter fun pending => matchesMessage pending message with
  | some pending =>
    if pending.originDeviceId ≠ n.config.peerDeviceId then
      Exec.raise (.invalidArgument "policy proposer mismatch")
    else send (.policy (if pending.state = .applied then .done else .ack) message)
  | none =>
    let rejected ← Exec.check (rejectsProposal message)
    if rejected then send (.policy .reject message)
    else if !message.source.known then Exec.raise (.invalidArgument "invalid policy source")
    else
      dbDo fun db => .ok (db.savePendingIgnorePolicy
        ⟨message.proposalId, n.config.peerDeviceId, message.baseHash, message.rules,
          message.source, .prepared⟩)
      send (.policy .ack message)

/-- `HandlePolicy` for a REJECT of the durable proposal. -/
def handlePolicyReject (pending : PendingIgnorePolicy H) : NodeM H Unit := do
  let n ← Exec.state
  if pending.originDeviceId = n.config.deviceId ∧ pending.state = .proposed then
    dbDo fun db => .ok db.clearPendingIgnorePolicy
  else pure ()

/-- `HandlePolicy` for an ACK of the durable proposal. -/
def handlePolicyAck (pending : PendingIgnorePolicy H) (message : IgnorePolicyMessage H) :
    NodeM H Unit := do
  let n ← Exec.state
  if pending.originDeviceId ≠ n.config.deviceId ∨ pending.state = .applied then pure ()
  else
    -- the decision survives a restart before either file changes
    savePolicy pending .committed
    applyCommittedPolicy pending
    send (.policy .commit message)

/-- `HandlePolicy` for a COMMIT of the durable proposal. -/
def handlePolicyCommit (pending : PendingIgnorePolicy H) (message : IgnorePolicyMessage H) :
    NodeM H Unit := do
  let n ← Exec.state
  if pending.originDeviceId ≠ n.config.peerDeviceId then
    Exec.raise (.invalidArgument "policy commit origin mismatch")
  else
    Exec.when (pending.state ≠ .applied) do
      savePolicy pending .committed
      applyCommittedPolicy pending
      savePolicy pending .applied
    send (.policy .done message)
    finishPolicy

/-- `HandlePolicy` for a DONE of the durable proposal. -/
def handlePolicyDone (pending : PendingIgnorePolicy H) : NodeM H Unit := do
  let n ← Exec.state
  if pending.originDeviceId ≠ n.config.deviceId then
    Exec.raise (.invalidArgument "policy receipt origin mismatch")
  else
    Exec.when (pending.state ≠ .applied) do
      applyCommittedPolicy pending
      savePolicy pending .applied
    finishPolicy

/-- `HandlePolicy` for the four answers to a proposal. -/
def handlePolicyAnswer (type : PolicyFrame) (message : IgnorePolicyMessage H) :
    NodeM H Unit := do
  let n ← Exec.state
  match n.db.findPendingIgnorePolicy.filter fun pending => matchesMessage pending message with
  | none =>
    if type = .reject then pure ()
    else Exec.raise (.invalidArgument "policy acknowledgement does not match durable proposal")
  | some pending =>
    match type with
    | .reject => handlePolicyReject pending
    | .ack => handlePolicyAck pending message
    | .commit => handlePolicyCommit pending message
    | _ => handlePolicyDone pending

/-- `HandlePolicy`: the rules of a message have to be valid before it is looked at. -/
def handlePolicy (type : PolicyFrame) (message : IgnorePolicyMessage H) : NodeM H Unit :=
  if type = .hello then handlePolicyHello message
  else if message.proposalId = [] then
    Exec.raise (.invalidArgument "policy proposal id is required")
  else do
    Exec.check fun _ => IgnoreRules.validate message.rules
    if type = .propose then handlePolicyPropose message else handlePolicyAnswer type message

end Node

end VeritasSync
