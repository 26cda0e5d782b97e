import VeritasSync.Lib.Exec
import VeritasSync.Lib.Run
import VeritasSync.Tracker.Contract

/-!
# The signaling of one peer connection

`SignalingSession` carries what libwebrtc says to the relay, and what the relay delivers to
libwebrtc.  Descriptions are applied as they arrive; the result of applying one comes later, from a
thread of the transport, and ICE candidates wait in a buffer until there is one.  A description with
another certificate is for another connection: from there on nothing is applied, and the owner takes
what arrived and builds a new peer.

The calls of the owner come one after another.  Everything else is an argument, read at each of the
points at which the session does not hold its lock: what the other threads did there (`meanwhile`),
what the relay and the transport answered.  `trace`, `received` and `ledger` are bookkeeping.

Candidates are the difficulty.  The transport takes one only after it has a remote description, and
for the right connection; they arrive before that, after that, and for connections that are about to
be given up.  A candidate that is lost can cost a connection and shows in no error.  So the accounts
are exact: for each candidate the relay has delivered there is one place at which it is, or at which
it was dropped on purpose.

## What is here

* `Remembers` — what a session has made of the messages it was given.
* `Accounts` — the invariant: with the calls that the pump still owes, every candidate is waiting,
  passed to the transport, or dropped by a restart.
* `accounts_interrupt`, `accounts_pump` — the other threads and the pump keep it.
* `signaling_session` — what holds in every run.
-/

set_option autoImplicit false

namespace VeritasSync

namespace Signaling

open Exec Tracker

/-! ## The session and its surroundings

The state has the members of the class, with the locks left out.  `Environment` says what happens
around it: it is asked once at each point where another thread can come in. -/

/-- `PeerTransport::IceCandidate`: an address at which a peer can perhaps be reached. -/
structure IceCandidate where
  mid : Bytes
  mlineIndex : Int
  inRange : inRange 32 mlineIndex = true
  candidate : Bytes

instance : DecidableEq IceCandidate := fun a b =>
  decidable_of_iff (a.mid = b.mid ∧ a.mlineIndex = b.mlineIndex ∧ a.candidate = b.candidate)
    (by cases a; cases b; simp)

/-- What is asked of a `PeerTransport`. -/
inductive Call where
  | createOffer
  | restartIce
  | applyRemoteOffer (sdp : Bytes)
  | applyRemoteAnswer (sdp : Bytes)
  | applyRemoteIceCandidate (candidate : IceCandidate)
  deriving DecidableEq

/-- What other threads do: the callbacks of the transport, and a `RestartIce` of the owner. -/
inductive Interrupt where
  | offer (sdp : Bytes)
  | answer (sdp : Bytes)
  | ice (candidate : IceCandidate)
  /-- The result of the description that was applied as number `index`. -/
  | remoteDescription (index : Nat) (success : Bool)
  | restartIce
  deriving DecidableEq

/-- What has happened: a call of the transport, the outcome of a description, or a restart. -/
inductive Event where
  | called (call : Call)
  | described (index : Nat) (success : Bool)
  | restarted
  deriving DecidableEq

/-- What has become of a candidate. -/
inductive Fate where
  | waiting
  | passed
  | discarded
  deriving DecidableEq

/-- `SignalingSession`, with the state that it shares with its callbacks. -/
structure SignalingSession where
  localDeviceId : DeviceId
  remoteDeviceId : DeviceId
  outbound : List RelayMessage := []
  remoteDescriptionResult : Option Bool := none
  restartOffer : Bool := false
  pendingIce : List IceCandidate := []
  remoteCertificate : Bytes := []
  resetMessages : List RelayMessage := []

/-- The session in its surroundings. -/
structure World extends SignalingSession where
  /-- How often the session has been without its lock. -/
  steps : Nat := 0
  trace : List Event := []
  /-- The messages drained from the inbox. -/
  received : List RelayMessage := []
  /-- The candidates that have got to the session, and what has become of them. -/
  ledger : List (IceCandidate × Fate) := []

/-- What is around a session: each answer is for the number of the point at which it is read. -/
structure Environment where
  meanwhile : Nat → List Interrupt
  forward : Nat → RelayMessage → Option Error
  drainInbox : Nat → DeviceId → Except Error (List RelayMessage)
  transport : Nat → Call → Option Error

/-- The description in a call. -/
def Call.isDescription : Call → Bool
  | .applyRemoteOffer _ | .applyRemoteAnswer _ => true
  | _ => false

/-- The candidate in a call. -/
def Call.candidate? : Call → Option IceCandidate
  | .applyRemoteIceCandidate candidate => some candidate
  | _ => none

/-- The call in an event. -/
def Event.call? : Event → Option Call
  | .called call => some call
  | _ => none

/-- The calls of the transport. -/
def calls (trace : List Event) : List Call := trace.filterMap Event.call?

/-- The descriptions that have been applied. -/
def descriptions (calls : List Call) : List Call := calls.filter Call.isDescription

/-- The candidates that have been passed to the transport. -/
def candidates (calls : List Call) : List IceCandidate := calls.filterMap Call.candidate?

/-! ## The source -/

/-- The constructor, which wants two different devices. -/
def create (localDeviceId remoteDeviceId : DeviceId) : Except Error World :=
  if localDeviceId = [] ∨ remoteDeviceId = [] ∨ localDeviceId = remoteDeviceId then
    .error (.invalidArgument "signaling session requires two distinct device ids")
  else .ok { localDeviceId := localDeviceId, remoteDeviceId := remoteDeviceId }

/-- A message of this device. -/
def World.message (w : World) (kind : MessageKind) (payload : Bytes) : RelayMessage :=
  ⟨kind, w.localDeviceId, w.remoteDeviceId, payload, [], -1, rfl⟩

/-- What is dropped by a restart. -/
def dropWaiting (fate : Fate) (ledger : List (IceCandidate × Fate)) : List (IceCandidate × Fate) :=
  ledger.map fun entry => if entry.2 = .waiting then (entry.1, fate) else entry

/-- The section of `RestartIce` under the lock. -/
def World.restart (w : World) : World :=
  { w with
    restartOffer := true
    pendingIce := []
    remoteDescriptionResult := none
    ledger := dropWaiting .discarded w.ledger
    trace := w.trace ++ [.restarted] }

/-- One thing that another thread does.  There is no result for a description that has not been
applied. -/
def World.interrupt (w : World) : Interrupt → World
  | .offer sdp =>
    if sdp = [] then w
    else { w with
      outbound := w.outbound ++ [w.message (if w.restartOffer then .iceRestart else .offer) sdp]
      restartOffer := false }
  | .answer sdp =>
    if sdp = [] then w else { w with outbound := w.outbound ++ [w.message .answer sdp] }
  | .ice candidate =>
    if candidate.mid = [] ∨ candidate.candidate = [] then w
    else { w with
      outbound := w.outbound ++ [⟨.iceCandidate, w.localDeviceId, w.remoteDeviceId,
        candidate.candidate, candidate.mid, candidate.mlineIndex, candidate.inRange⟩] }
  | .remoteDescription index success =>
    if index < (descriptions (calls w.trace)).length then
      { w with
        remoteDescriptionResult := some success
        trace := w.trace ++ [.described index success] }
    else w
  | .restartIce => { w.restart with trace := w.restart.trace ++ [.called .restartIce] }

/-- The lock is free. -/
def meanwhile (environment : Environment) : Exec World Error Unit :=
  update fun w =>
    (environment.meanwhile w.steps).foldl World.interrupt { w with steps := w.steps + 1 }

/-- A call of the transport. -/
def transport (environment : Environment) (call : Call) : Exec World Error Unit := do
  let w ← state
  match environment.transport w.steps call with
  | some e => raise e
  | none => update fun w => { w with trace := w.trace ++ [.called call] }

/-- `SignalingRelay::Forward`: the relay takes the message, or throws. -/
def forward (environment : Environment) (message : RelayMessage) : Exec World Error Unit := do
  let w ← state
  match environment.forward w.steps message with
  | some e => raise e
  | none => pure ()

/-- `SignalingRelay::DrainInbox`: all messages that wait for this device, or an exception. -/
def drainInbox (environment : Environment) : Exec World Error (List RelayMessage) :=
  atomic fun w => do
    let messages ← environment.drainInbox w.steps w.localDeviceId
    .ok (messages, { w with received := w.received ++ messages })

/-- `StartOffer`: the transport is told to make an offer, and says later what it is. -/
def startOffer (environment : Environment) : Exec World Error Unit :=
  transport environment .createOffer

/-- `RestartIce`: candidates of the old connection are dropped before the transport is told. -/
def restartIce (environment : Environment) : Exec World Error Unit := do
  update World.restart
  meanwhile environment
  transport environment .restartIce

/-- The line that names the certificate in a session description. -/
def certificateLine (payload : Bytes) : Option Bytes :=
  (payload.tails.find? fun rest => (ascii "a=fingerprint:").isPrefixOf rest).map
    (·.takeWhile fun b => b ≠ 13 ∧ b ≠ 10)

/-- The part of `ApplyMessage` for a description. -/
def applyDescription (environment : Environment) (message : RelayMessage) :
    Exec World Error Unit := do
  let w ← state
  let certificate := certificateLine message.payload
  if w.remoteCertificate ≠ [] ∧ certificate.any (· ≠ w.remoteCertificate) then
    update fun w => { w with resetMessages := w.resetMessages ++ [message] }
  else do
    update fun w => { w with
      remoteCertificate := certificate.getD w.remoteCertificate
      remoteDescriptionResult := none }
    meanwhile environment
    transport environment
      (if message.kind ≠ .answer then .applyRemoteOffer message.payload
      else .applyRemoteAnswer message.payload)

/-- The candidate of a message. -/
def candidateOf (message : RelayMessage) : IceCandidate :=
  ⟨message.candidateMid, message.candidateMlineIndex, message.inRange, message.payload⟩

/-- `ApplyMessage`: a description is applied, a candidate is put aside. -/
def applyMessage (environment : Environment) (message : RelayMessage) :
    Exec World Error Unit := do
  let w ← state
  if message.senderDeviceId ≠ w.remoteDeviceId then
    raise (.invalidArgument "signal sender does not match session peer")
  else match message.kind with
  | .offer | .iceRestart | .answer =>
    if message.payload = [] then raise (.invalidArgument "empty session description")
    else applyDescription environment message
  | .iceCandidate =>
    if message.payload = [] ∨ message.candidateMid = [] ∨ message.candidateMlineIndex < -1 then
      raise (.invalidArgument "invalid ICE candidate relay message")
    else update fun w => { w with
      pendingIce := w.pendingIce ++ [candidateOf message]
      ledger := w.ledger ++ [(candidateOf message, .waiting)] }

/-- The loop of `ApplyReadyCandidates`. -/
def pass (environment : Environment) (candidate : IceCandidate) : Exec World Error Unit := do
  meanwhile environment
  transport environment (.applyRemoteIceCandidate candidate)

/-- `ApplyReadyCandidates`.  What happens after it has found no result, happens after the pump. -/
def applyReadyCandidates (environment : Environment) : Exec World Error Unit := do
  let w ← state
  match w.remoteDescriptionResult with
  | none => pure ()
  | some false => raise (.runtimeError "WebRTC rejected remote description")
  | some true => do
    update fun w => { w with pendingIce := [], ledger := dropWaiting .passed w.ledger }
    w.pendingIce.forM (pass environment)

/-- The loop of `Pump` over the inbox. -/
def receive (environment : Environment) (message : RelayMessage) : Exec World Error Unit := do
  meanwhile environment
  let w ← state
  if w.resetMessages ≠ [] then
    update fun w => { w with resetMessages := w.resetMessages ++ [message] }
  else applyMessage environment message

/-- `Pump`: what is to be sent, then what has been received, then the candidates that can be applied
by now. -/
def pump (environment : Environment) : Exec World Error Unit := do
  let w ← state
  update fun w => { w with outbound := [] }
  w.outbound.forM fun message => do
    meanwhile environment
    forward environment message
  meanwhile environment
  let messages ← drainInbox environment
  messages.forM (receive environment)
  meanwhile environment
  let w ← state
  when (w.resetMessages = []) (applyReadyCandidates environment)

/-- `TakeResetMessages`: the owner takes what belongs to another connection. -/
def takeResetMessages : Exec World Error (List RelayMessage) := do
  let w ← state
  update fun w => { w with resetMessages := [] }
  pure w.resetMessages

/-- What the owner of a session does with it. -/
inductive Action where
  | startOffer
  | restartIce
  | pump
  | takeResetMessages
  deriving DecidableEq

/-- A call of the owner, some time after the one before. -/
def perform (environment : Environment) (action : Action) : Exec World Error Unit := do
  meanwhile environment
  match action with
  | .startOffer => startOffer environment
  | .restartIce => restartIce environment
  | .pump => pump environment
  | .takeResetMessages => do
    let _ ← takeResetMessages

/-- The session after a call of its owner. -/
def step (environment : Environment) (w : World) (action : Action) : World :=
  (perform environment action w).2

/-! ## What a session makes of its messages

The specification.  It reads the messages from the first to the last and says which of them have
been applied, which are waiting, and whether the connection has been given up; it knows nothing of
buffers and locks. -/

/-- The certificate that a message names. -/
def certificateOf (message : RelayMessage) : Option Bytes :=
  if message.kind = .iceCandidate then none else certificateLine message.payload

/-- The call for a description. -/
def descriptionOf (message : RelayMessage) : Option Call :=
  if message.kind = .iceCandidate then none
  else if message.kind ≠ .answer then some (.applyRemoteOffer message.payload)
  else some (.applyRemoteAnswer message.payload)

/-- The candidates among the messages. -/
def candidatesOf (messages : List RelayMessage) : List IceCandidate :=
  (messages.filter fun message => message.kind = .iceCandidate).map candidateOf

/-- The certificate that is remembered after the messages: the last that one of them names. -/
def remembered (messages : List RelayMessage) : Bytes :=
  ((messages.filterMap certificateOf).getLast?).getD []

/-- The message names another certificate than the one that is remembered. -/
def Differs (certificate : Bytes) (message : RelayMessage) : Prop :=
  ∃ line, certificateOf message = some line ∧ certificate ≠ [] ∧ line ≠ certificate

/-- What `ApplyMessage` takes from the peer. -/
structure WellFormed (peer : DeviceId) (message : RelayMessage) : Prop where
  sender : message.senderDeviceId = peer
  payload : message.payload ≠ []
  candidate : message.kind = .iceCandidate →
    message.candidateMid ≠ [] ∧ -1 ≤ message.candidateMlineIndex

/-- The peer sends well-formed messages, its descriptions are accepted, and the transport does not
fail. -/
structure Reliable (localDeviceId remoteDeviceId : DeviceId) (environment : Environment) :
    Prop where
  inbox : ∀ n messages, environment.drainInbox n localDeviceId = .ok messages →
    ∀ message ∈ messages, WellFormed remoteDeviceId message
  results : ∀ n index, .remoteDescription index false ∉ environment.meanwhile n
  transport : ∀ n call, environment.transport n call = none

/-- The messages handled and kept: those kept start at the first that names another certificate
than the messages before it. -/
structure Remembers (handled kept : List RelayMessage) : Prop where
  same : ∀ before message after, handled = before ++ message :: after →
    ¬ Differs (remembered before) message
  other : ∀ message rest, kept = message :: rest → Differs (remembered handled) message

/-- The description applied last has completed, and nothing was restarted since. -/
def LatestCompleted (trace : List Event) : Prop :=
  ∃ before index after, trace = before ++ .described index true :: after ∧
    index + 1 = (descriptions (calls trace)).length ∧ .restarted ∉ after

/-- Every message that has arrived is handled or kept, and every candidate among those handled is
waiting, has been passed to the transport, or was dropped by a restart. -/
structure Preserves (w : World) : Prop where
  /-- What was handled has got to where it belongs, once and in order. -/
  messages : ∃ handled, w.received = handled ++ w.resetMessages ∧
    Remembers handled w.resetMessages ∧
    descriptions (calls w.trace) = handled.filterMap descriptionOf ∧
    w.ledger.map Prod.fst = candidatesOf handled
  passed : candidates (calls w.trace) =
    (w.ledger.filter fun entry => entry.2 = .passed).map Prod.fst
  waiting : w.pendingIce = (w.ledger.filter fun entry => entry.2 = .waiting).map Prod.fst
  order : ∀ before candidate after,
    w.trace = before ++ .called (.applyRemoteIceCandidate candidate) :: after →
      ∃ index, .described index true ∈ before

/-- With the calls `owed` to the transport and the messages `coming` from an inbox that has been
drained, everything is accounted for. -/
structure Accounts (localDeviceId remoteDeviceId : DeviceId) (owed : List Call)
    (coming : List RelayMessage) (w : World) : Prop where
  localDeviceId : w.localDeviceId = localDeviceId
  remoteDeviceId : w.remoteDeviceId = remoteDeviceId
  /-- What waits in the ledger is what waits in the buffer. -/
  ledger : ∃ settled, (∀ entry ∈ settled, entry.2 ≠ .waiting) ∧
    w.ledger = settled ++ w.pendingIce.map (·, .waiting)
  passed : candidates (calls w.trace) ++ candidates owed =
    (w.ledger.filter fun entry => entry.2 = .passed).map Prod.fst
  handled : ∃ handled, w.received = handled ++ w.resetMessages ++ coming ∧
    Remembers handled w.resetMessages ∧
    w.remoteCertificate = remembered handled ∧
    descriptions (calls w.trace) ++ descriptions owed = handled.filterMap descriptionOf ∧
    w.ledger.map Prod.fst = candidatesOf handled
  /-- A candidate is passed when some description has completed. -/
  order : ∀ before candidate after,
    w.trace = before ++ .called (.applyRemoteIceCandidate candidate) :: after →
      ∃ index, .described index true ∈ before
  ready : candidates owed ≠ [] → ∃ index, .described index true ∈ w.trace
  result : ∀ success, w.remoteDescriptionResult = some success →
    success = true ∧ ∃ index, .described index true ∈ w.trace
  described : ∀ index success, .described index success ∈ w.trace →
    index < (descriptions (calls w.trace)).length
  /-- While the last description has completed, its result is there. -/
  fresh : descriptions owed = [] → LatestCompleted w.trace → w.remoteDescriptionResult = some true

/-! ## Splitting a trace -/

section Traces

variable {trace : List Event}

@[simp] theorem calls_append (before after : List Event) :
    calls (before ++ after) = calls before ++ calls after :=
  List.filterMap_append

@[simp] theorem calls_singleton (call : Call) : calls [.called call] = [call] := rfl

@[simp] theorem calls_described (index : Nat) (success : Bool) :
    calls [.described index success] = [] := rfl

@[simp] theorem calls_restarted : calls [.restarted] = [] := rfl

@[simp] theorem descriptions_append (before after : List Call) :
    descriptions (before ++ after) = descriptions before ++ descriptions after :=
  List.filter_append ..

@[simp] theorem candidates_append (before after : List Call) :
    candidates (before ++ after) = candidates before ++ candidates after :=
  List.filterMap_append

theorem descriptions_cons (call : Call) (rest : List Call) :
    descriptions (call :: rest) = descriptions [call] ++ descriptions rest :=
  descriptions_append [call] rest

theorem candidates_of_isDescription {call : Call} (h : call.isDescription = true) :
    candidates [call] = [] := by
  cases call with
  | applyRemoteOffer sdp => rfl
  | applyRemoteAnswer sdp => rfl
  | createOffer => cases h
  | restartIce => cases h
  | applyRemoteIceCandidate candidate => cases h

theorem candidates_cons (call : Call) (rest : List Call) :
    candidates (call :: rest) = candidates [call] ++ candidates rest :=
  candidates_append [call] rest

/-- An entry of a list that has grown is the new one, or it was there before. -/
theorem split_append {α : Type} {l before after : List α} {entry last : α}
    (h : l ++ [last] = before ++ entry :: after) :
    (entry = last ∧ before = l ∧ after = []) ∨
      ∃ after', after = after' ++ [last] ∧ l = before ++ entry :: after' := by
  rcases List.eq_nil_or_concat' after with rfl | ⟨after', last', rfl⟩
  · obtain ⟨hbefore, hlast⟩ := List.append_inj' h rfl
    cases hlast
    exact .inl ⟨rfl, hbefore.symm, rfl⟩
  · rw [← List.cons_append, ← List.append_assoc] at h
    obtain ⟨hbefore, hlast⟩ := List.append_inj' h rfl
    cases hlast
    exact .inr ⟨after', rfl, hbefore⟩

theorem not_latestCompleted_restarted : ¬ LatestCompleted (trace ++ [.restarted]) := by
  rintro ⟨before, index, after, h, -, hafter⟩
  rcases split_append h with ⟨hlast, -, -⟩ | ⟨after', rfl, -⟩
  · cases hlast
  · exact hafter (List.mem_append_right _ (List.mem_singleton_self _))

/-- A call other than a description does not complete one. -/
theorem LatestCompleted.of_call {call : Call} (hcall : descriptions [call] = [])
    (h : LatestCompleted (trace ++ [.called call])) : LatestCompleted trace := by
  obtain ⟨before, index, after, htrace, hindex, hafter⟩ := h
  rcases split_append htrace with ⟨hlast, -, -⟩ | ⟨after', rfl, htrace'⟩
  · cases hlast
  · refine ⟨before, index, after', htrace', ?_, fun hmem => hafter (List.mem_append_left _ hmem)⟩
    rw [hindex, calls_append, descriptions_append, calls_singleton, hcall, List.append_nil]

/-- A description that has just been applied has not completed. -/
theorem not_latestCompleted_description {call : Call} (hcall : descriptions [call] ≠ [])
    (h : ∀ index success, .described index success ∈ trace →
      index < (descriptions (calls trace)).length) :
    ¬ LatestCompleted (trace ++ [.called call]) := by
  rintro ⟨before, index, after, htrace, hindex, -⟩
  rcases split_append htrace with ⟨hlast, -, -⟩ | ⟨after', rfl, htrace'⟩
  · cases hlast
  · have hlt := h index true (by rw [htrace']; simp)
    have hpos := List.length_pos_iff.2 hcall
    rw [calls_append, descriptions_append, calls_singleton, List.length_append] at hindex
    omega

end Traces

/-! ## What is remembered -/

theorem remembered_append (handled : List RelayMessage) (message : RelayMessage) :
    remembered (handled ++ [message]) = (certificateOf message).getD (remembered handled) := by
  rw [remembered, List.filterMap_append, List.filterMap_cons, List.filterMap_nil]
  cases certificateOf message with
  | none => simp [remembered]
  | some line => simp

theorem Remembers.append {handled : List RelayMessage} {message : RelayMessage}
    (h : Remembers handled []) (hsame : ¬ Differs (remembered handled) message) :
    Remembers (handled ++ [message]) [] where
  same before message' after heq := by
    rcases split_append heq with ⟨rfl, rfl, -⟩ | ⟨after', -, heq'⟩
    · exact hsame
    · exact h.same before message' after' heq'
  other message' rest heq := by cases heq

theorem Remembers.keep {handled kept : List RelayMessage} (h : Remembers handled kept)
    (hkept : kept ≠ []) (message : RelayMessage) : Remembers handled (kept ++ [message]) where
  same := h.same
  other message' rest heq := by
    cases kept with
    | nil => exact absurd rfl hkept
    | cons head others =>
      cases heq
      exact h.other message' others rfl

/-! ## Other threads

Callbacks of the transport come at any point outside the locks.  They enqueue messages for the relay
or record the outcome of a description, and a restart drops the candidates that wait.  None of them
applies anything. -/

section Interrupts

variable {localDeviceId remoteDeviceId : DeviceId} {owed : List Call} {coming : List RelayMessage}
  {w : World}

/-- The parts of the state that only matter to what is sent. -/
theorem Accounts.frame (h : Accounts localDeviceId remoteDeviceId owed coming w)
    (outbound : List RelayMessage) (restartOffer : Bool) (steps : Nat) :
    Accounts localDeviceId remoteDeviceId owed coming
      { w with outbound := outbound, restartOffer := restartOffer, steps := steps } :=
  ⟨h.localDeviceId, h.remoteDeviceId, h.ledger, h.passed, h.handled, h.order, h.ready, h.result,
    h.described, h.fresh⟩

/-- A call that was owed has been made. -/
theorem Accounts.called {call : Call}
    (h : Accounts localDeviceId remoteDeviceId (call :: owed) coming w) :
    Accounts localDeviceId remoteDeviceId owed coming
      { w with trace := w.trace ++ [.called call] } where
  localDeviceId := h.localDeviceId
  remoteDeviceId := h.remoteDeviceId
  ledger := h.ledger
  passed := by
    rw [← h.passed, candidates_cons call owed, calls_append, candidates_append, calls_singleton,
      List.append_assoc]
  handled := by
    obtain ⟨handled, hreceived, hremembers, hcertificate, hdescriptions, hcandidates⟩ := h.handled
    refine ⟨handled, hreceived, hremembers, hcertificate, ?_, hcandidates⟩
    rw [← hdescriptions, descriptions_cons call owed, calls_append, descriptions_append,
      calls_singleton, List.append_assoc]
  order before candidate after heq := by
    rcases split_append heq with ⟨hlast, rfl, -⟩ | ⟨after', -, heq'⟩
    · refine h.ready ?_
      cases hlast
      rw [candidates_cons]
      exact List.cons_ne_nil candidate _
    · exact h.order before candidate after' heq'
  ready hne := by
    obtain ⟨index, hindex⟩ := h.ready (by
      rw [candidates_cons]
      exact List.append_ne_nil_of_right_ne_nil _ hne)
    exact ⟨index, List.mem_append_left _ hindex⟩
  result success hresult := by
    obtain ⟨hsuccess, index, hindex⟩ := h.result success hresult
    exact ⟨hsuccess, index, List.mem_append_left _ hindex⟩
  described index success hmem := by
    rcases List.mem_append.1 hmem with hmem | hmem
    · have hlt := h.described index success hmem
      rw [calls_append, descriptions_append, List.length_append]
      omega
    · cases List.mem_singleton.1 hmem
  fresh howed hlatest := by
    by_cases hcall : descriptions [call] = []
    · refine h.fresh ?_ (hlatest.of_call hcall)
      rw [descriptions_cons, hcall, howed, List.append_nil]
    · exact absurd hlatest (not_latestCompleted_description hcall h.described)

/-- A call that carries nothing for the peer. -/
theorem Accounts.owe {call : Call} (hdescription : descriptions [call] = [])
    (hcandidate : candidates [call] = [])
    (h : Accounts localDeviceId remoteDeviceId owed coming w) :
    Accounts localDeviceId remoteDeviceId (call :: owed) coming w where
  localDeviceId := h.localDeviceId
  remoteDeviceId := h.remoteDeviceId
  ledger := h.ledger
  passed := by rw [candidates_cons, hcandidate, List.nil_append, h.passed]
  handled := by rw [descriptions_cons, hdescription, List.nil_append]; exact h.handled
  order := h.order
  ready := by rw [candidates_cons, hcandidate, List.nil_append]; exact h.ready
  result := h.result
  described := h.described
  fresh := by rw [descriptions_cons, hdescription, List.nil_append]; exact h.fresh

theorem dropWaiting_eq {fate : Fate} {settled : List (IceCandidate × Fate)}
    (hsettled : ∀ entry ∈ settled, entry.2 ≠ .waiting) (pending : List IceCandidate) :
    dropWaiting fate (settled ++ pending.map (·, .waiting)) = settled ++ pending.map (·, fate) := by
  rw [dropWaiting, List.map_append, List.map_map]
  congr 1
  exact (List.map_congr_left fun entry hentry => if_neg (hsettled entry hentry)).trans
    (List.map_id settled)

theorem filter_pending {fate : Fate} (hfate : fate ≠ .passed) (pending : List IceCandidate) :
    ((pending.map (·, fate)).filter fun entry => entry.2 = .passed) = [] := by
  refine List.filter_eq_nil_iff.2 fun entry hentry => ?_
  obtain ⟨candidate, -, rfl⟩ := List.mem_map.1 hentry
  simpa using hfate

theorem map_fst_dropWaiting (fate : Fate) (ledger : List (IceCandidate × Fate)) :
    (dropWaiting fate ledger).map Prod.fst = ledger.map Prod.fst := by
  rw [dropWaiting, List.map_map]
  refine List.map_congr_left fun entry _ => ?_
  rw [Function.comp_apply]
  split
  · rfl
  · rfl

theorem Accounts.restart (h : Accounts localDeviceId remoteDeviceId owed coming w) :
    Accounts localDeviceId remoteDeviceId owed coming w.restart where
  localDeviceId := h.localDeviceId
  remoteDeviceId := h.remoteDeviceId
  ledger := by
    obtain ⟨settled, hsettled, hledger⟩ := h.ledger
    refine ⟨settled ++ w.pendingIce.map (·, .discarded), fun entry hentry => ?_, ?_⟩
    · rcases List.mem_append.1 hentry with hentry | hentry
      · exact hsettled entry hentry
      · obtain ⟨candidate, -, rfl⟩ := List.mem_map.1 hentry
        exact Fate.noConfusion
    · rw [World.restart, hledger, dropWaiting_eq hsettled]
      exact (List.append_nil _).symm
  passed := by
    obtain ⟨settled, hsettled, hledger⟩ := h.ledger
    have hpassed := h.passed
    rw [hledger] at hpassed
    rw [World.restart, hledger, dropWaiting_eq hsettled, calls_append, calls_restarted,
      List.append_nil, hpassed, List.filter_append, List.filter_append,
      filter_pending Fate.noConfusion, filter_pending Fate.noConfusion]
  handled := by
    obtain ⟨handled, hreceived, hremembers, hcertificate, hdescriptions, hcandidates⟩ := h.handled
    refine ⟨handled, hreceived, hremembers, hcertificate, ?_, ?_⟩
    · rw [← hdescriptions, World.restart, calls_append, calls_restarted, List.append_nil]
    · rw [← hcandidates, World.restart, map_fst_dropWaiting]
  order before candidate after heq := by
    rcases split_append heq with ⟨hlast, -, -⟩ | ⟨after', -, heq'⟩
    · cases hlast
    · exact h.order before candidate after' heq'
  ready hne := (h.ready hne).imp fun _ hindex => List.mem_append_left _ hindex
  result success hresult := by cases hresult
  described index success hmem := by
    rw [World.restart, calls_append, calls_restarted, List.append_nil]
    rcases List.mem_append.1 hmem with hmem | hmem
    · exact h.described index success hmem
    · cases List.mem_singleton.1 hmem
  fresh _ hlatest := absurd hlatest not_latestCompleted_restarted

/-- The result of a description that has been applied. -/
theorem Accounts.describe (h : Accounts localDeviceId remoteDeviceId owed coming w) {index : Nat}
    (hindex : index < (descriptions (calls w.trace)).length) :
    Accounts localDeviceId remoteDeviceId owed coming
      { w with
        remoteDescriptionResult := some true
        trace := w.trace ++ [.described index true] } where
  localDeviceId := h.localDeviceId
  remoteDeviceId := h.remoteDeviceId
  ledger := h.ledger
  passed := by
    rw [calls_append, calls_described, List.append_nil]
    exact h.passed
  handled := by
    rw [calls_append, calls_described, List.append_nil]
    exact h.handled
  order before candidate after heq := by
    rcases split_append heq with ⟨hlast, -, -⟩ | ⟨after', -, heq'⟩
    · cases hlast
    · exact h.order before candidate after' heq'
  ready hne := (h.ready hne).imp fun _ hindex => List.mem_append_left _ hindex
  result success hresult := by
    cases hresult
    exact ⟨rfl, index, List.mem_append_right _ (List.mem_singleton_self _)⟩
  described index' success hmem := by
    rw [calls_append, calls_described, List.append_nil]
    rcases List.mem_append.1 hmem with hmem | hmem
    · exact h.described index' success hmem
    · cases List.mem_singleton.1 hmem
      exact hindex
  fresh _ _ := rfl

theorem accounts_interrupt (h : Accounts localDeviceId remoteDeviceId owed coming w)
    {interrupt : Interrupt} (hresult : ∀ index, interrupt ≠ .remoteDescription index false) :
    Accounts localDeviceId remoteDeviceId owed coming (w.interrupt interrupt) := by
  cases interrupt with
  | offer sdp =>
    rw [World.interrupt]
    split
    · exact h
    · exact h.frame _ _ _
  | answer sdp =>
    rw [World.interrupt]
    split
    · exact h
    · exact h.frame _ _ _
  | ice candidate =>
    rw [World.interrupt]
    split
    · exact h
    · exact h.frame _ _ _
  | remoteDescription index success =>
    rw [World.interrupt]
    split
    · rename_i hindex
      cases success with
      | false => exact absurd rfl (hresult index)
      | true => exact h.describe hindex
    · exact h
  | restartIce => exact (h.restart.owe rfl rfl).called

/-- An interrupt leaves what the owner has not yet seen, and brings back no candidate. -/
theorem interrupt_same (w : World) (interrupt : Interrupt) :
    (w.interrupt interrupt).resetMessages = w.resetMessages ∧
      (w.pendingIce = [] → (w.interrupt interrupt).pendingIce = []) := by
  cases interrupt with
  | offer sdp =>
    rw [World.interrupt]
    split
    · exact ⟨rfl, id⟩
    · exact ⟨rfl, id⟩
  | answer sdp =>
    rw [World.interrupt]
    split
    · exact ⟨rfl, id⟩
    · exact ⟨rfl, id⟩
  | ice candidate =>
    rw [World.interrupt]
    split
    · exact ⟨rfl, id⟩
    · exact ⟨rfl, id⟩
  | remoteDescription index success =>
    rw [World.interrupt]
    split
    · exact ⟨rfl, id⟩
    · exact ⟨rfl, id⟩
  | restartIce => exact ⟨rfl, fun _ => rfl⟩

end Interrupts

/-! ## The owner -/

section Pump

variable {environment : Environment} {localDeviceId remoteDeviceId : DeviceId} {owed : List Call}
  {coming : List RelayMessage} {w : World} {E : Error → World → Prop}

/-- What the other threads keep, one by one, is there after them. -/
theorem wp_meanwhile {I : World → Prop} (hsteps : ∀ n, I { w with steps := n })
    (hinterrupt : ∀ w, I w → ∀ n, ∀ interrupt ∈ environment.meanwhile n,
      I (w.interrupt interrupt)) :
    Wp (meanwhile environment) (fun _ => I) E w := by
  have hfold : ∀ interrupts : List Interrupt,
      (∀ interrupt ∈ interrupts, ∃ n, interrupt ∈ environment.meanwhile n) →
        ∀ w, I w → I (interrupts.foldl World.interrupt w) := by
    intro interrupts
    induction interrupts with
    | nil => exact fun _ w hw => hw
    | cons interrupt rest ih =>
      intro hmem w hw
      obtain ⟨n, hn⟩ := hmem interrupt List.mem_cons_self
      exact ih (fun interrupt' h => hmem interrupt' (List.mem_cons_of_mem _ h)) _
        (hinterrupt w hw n interrupt hn)
  exact hfold _ (fun interrupt h => ⟨w.steps, h⟩) _ (hsteps _)

variable (henvironment : Reliable localDeviceId remoteDeviceId environment)
include henvironment

theorem accounts_meanwhile (h : Accounts localDeviceId remoteDeviceId owed coming w) :
    Wp (meanwhile environment) (fun _ => Accounts localDeviceId remoteDeviceId owed coming) E w :=
  wp_meanwhile (fun n => h.frame _ _ n) fun _ hw n _ hmem =>
    accounts_interrupt hw fun index heq => henvironment.results n index (heq ▸ hmem)

theorem accounts_transport {call : Call}
    (h : Accounts localDeviceId remoteDeviceId (call :: owed) coming w) :
    Wp (transport environment call) (fun _ => Accounts localDeviceId remoteDeviceId owed coming)
      E w := by
  rw [transport, wp_bind, wp_state, henvironment.transport]
  exact h.called

theorem accounts_forward (h : Accounts localDeviceId remoteDeviceId owed coming w)
    (message : RelayMessage) :
    Wp (do meanwhile environment; forward environment message)
      (fun _ => Accounts localDeviceId remoteDeviceId owed coming)
      (fun _ => Accounts localDeviceId remoteDeviceId owed coming) w := by
  rw [wp_bind]
  refine wp_mono (accounts_meanwhile henvironment h) (fun _ w' h' => ?_) fun _ _ h' => h'
  rw [forward, wp_bind, wp_state]
  split
  · exact h'
  · exact h'

theorem accounts_drainInbox (h : Accounts localDeviceId remoteDeviceId [] [] w) :
    Wp (drainInbox environment) (fun messages w' => (∀ message ∈ messages,
        WellFormed remoteDeviceId message) ∧
        Accounts localDeviceId remoteDeviceId [] messages w')
      (fun _ => Accounts localDeviceId remoteDeviceId [] []) w := by
  refine wp_atomic (fun _ _ => h) fun messages w' hdrain => ?_
  obtain ⟨messages', hmessages, hw'⟩ := ok_of_bind hdrain
  cases hw'
  rw [h.localDeviceId] at hmessages
  refine ⟨henvironment.inbox w.steps messages hmessages, ?_⟩
  obtain ⟨handled, hreceived, hrest⟩ := h.handled
  refine ⟨h.localDeviceId, h.remoteDeviceId, h.ledger, h.passed, ⟨handled, ?_, hrest⟩, h.order,
    h.ready, h.result, h.described, h.fresh⟩
  rw [hreceived, List.append_nil]

omit henvironment in
/-- After a message with another certificate, the session only keeps. -/
theorem Accounts.keep {message : RelayMessage}
    (h : Accounts localDeviceId remoteDeviceId [] (message :: coming) w)
    (hreset : w.resetMessages ≠ []) :
    Accounts localDeviceId remoteDeviceId [] coming
      { w with resetMessages := w.resetMessages ++ [message] } := by
  obtain ⟨handled, hreceived, hremembers, hrest⟩ := h.handled
  refine ⟨h.localDeviceId, h.remoteDeviceId, h.ledger, h.passed,
    ⟨handled, ?_, hremembers.keep hreset message, hrest⟩, h.order, h.ready, h.result, h.described,
    h.fresh⟩
  rw [hreceived, List.append_assoc, List.append_assoc, List.append_assoc]
  rfl

omit henvironment in
/-- The message with another certificate. -/
theorem Accounts.other {message : RelayMessage}
    (h : Accounts localDeviceId remoteDeviceId [] (message :: coming) w)
    (hreset : w.resetMessages = []) (hdiffers : Differs w.remoteCertificate message) :
    Accounts localDeviceId remoteDeviceId [] coming
      { w with resetMessages := w.resetMessages ++ [message] } := by
  obtain ⟨handled, hreceived, hremembers, hcertificate, hrest⟩ := h.handled
  refine ⟨h.localDeviceId, h.remoteDeviceId, h.ledger, h.passed,
    ⟨handled, ?_, ⟨hremembers.same, ?_⟩, hcertificate, hrest⟩, h.order, h.ready, h.result,
    h.described, h.fresh⟩
  · rw [hreceived, hreset, List.append_assoc, List.append_assoc]
    rfl
  · intro message' rest heq
    rw [hreset] at heq
    cases heq
    exact hcertificate ▸ hdiffers

omit henvironment in
/-- A candidate waits: it has arrived, and nothing else has happened to it. -/
theorem Accounts.wait {message : RelayMessage}
    (h : Accounts localDeviceId remoteDeviceId [] (message :: coming) w)
    (hreset : w.resetMessages = []) (hkind : message.kind = .iceCandidate) :
    Accounts localDeviceId remoteDeviceId [] coming
      { w with
        pendingIce := w.pendingIce ++ [candidateOf message]
        ledger := w.ledger ++ [(candidateOf message, .waiting)] } where
  localDeviceId := h.localDeviceId
  remoteDeviceId := h.remoteDeviceId
  ledger := by
    obtain ⟨settled, hsettled, hledger⟩ := h.ledger
    refine ⟨settled, hsettled, ?_⟩
    rw [hledger, List.append_assoc, List.map_append]
    rfl
  passed := by
    rw [h.passed, List.filter_append]
    exact congrArg (List.map Prod.fst) (List.append_nil _).symm
  handled := by
    obtain ⟨handled, hreceived, hremembers, hcertificate, hdescriptions, hcandidates⟩ := h.handled
    have hnone : certificateOf message = none := if_pos hkind
    rw [hreset] at hremembers
    refine ⟨handled ++ [message], ?_, ?_, ?_, ?_, ?_⟩
    · rw [hreceived, hreset, List.append_nil, List.append_nil, List.append_assoc]
      rfl
    · rw [hreset]
      refine hremembers.append ?_
      rintro ⟨line, hline, -⟩
      rw [hnone] at hline
      cases hline
    · rw [remembered_append, hnone, hcertificate]
      rfl
    · rw [hdescriptions, List.filterMap_append]
      simp [descriptionOf, hkind]
    · rw [List.map_append, hcandidates, candidatesOf, candidatesOf, List.filter_append]
      simp [hkind]
  order := h.order
  ready := h.ready
  result := h.result
  described := h.described
  fresh := h.fresh

omit henvironment in
/-- A description is about to be applied. -/
theorem Accounts.apply {message : RelayMessage} {call : Call}
    (h : Accounts localDeviceId remoteDeviceId [] (message :: coming) w)
    (hreset : w.resetMessages = []) (hkind : message.kind ≠ .iceCandidate)
    (hsame : ¬ Differs w.remoteCertificate message) (hcall : descriptionOf message = some call)
    (hdescription : call.isDescription = true) :
    Accounts localDeviceId remoteDeviceId [call] coming
      { w with
        remoteCertificate := (certificateLine message.payload).getD w.remoteCertificate
        remoteDescriptionResult := none } where
  localDeviceId := h.localDeviceId
  remoteDeviceId := h.remoteDeviceId
  ledger := h.ledger
  passed := by
    rw [← h.passed, candidates_of_isDescription hdescription]
    rfl
  handled := by
    obtain ⟨handled, hreceived, hremembers, hcertificate, hdescriptions, hcandidates⟩ := h.handled
    rw [hreset] at hremembers
    refine ⟨handled ++ [message], ?_, ?_, ?_, ?_, ?_⟩
    · rw [hreceived, hreset, List.append_nil, List.append_nil, List.append_assoc]
      rfl
    · rw [hreset]
      exact hremembers.append (hcertificate ▸ hsame)
    · rw [remembered_append, certificateOf, if_neg hkind, hcertificate]
    · rw [List.filterMap_append, ← hdescriptions, List.filterMap_cons, hcall]
      simp [descriptions, hdescription]
    · rw [hcandidates, candidatesOf, candidatesOf, List.filter_append]
      simp [hkind]
  order := h.order
  ready hne := absurd (candidates_of_isDescription hdescription) hne
  result success hresult := by cases hresult
  described := h.described
  fresh howed := by
    rw [descriptions, List.filter_cons_of_pos hdescription] at howed
    cases howed

theorem accounts_applyDescription {message : RelayMessage}
    (h : Accounts localDeviceId remoteDeviceId [] (message :: coming) w)
    (hreset : w.resetMessages = []) (hkind : message.kind ≠ .iceCandidate) :
    Wp (applyDescription environment message)
      (fun _ => Accounts localDeviceId remoteDeviceId [] coming) E w := by
  have hline : certificateOf message = certificateLine message.payload := if_neg hkind
  rw [applyDescription, wp_bind, wp_state]
  refine wp_ite (fun hother => ?_) fun hsame => ?_
  · refine h.other hreset ?_
    obtain ⟨hne, hother⟩ := hother
    obtain ⟨line, hline', hdiffers⟩ := Option.any_eq_true .. |>.1 hother
    exact ⟨line, hline.trans hline', hne, by simpa using hdiffers⟩
  · have hsame' : ¬ Differs w.remoteCertificate message := by
      rintro ⟨line, hline', hne, hdiffers⟩
      refine hsame ⟨hne, ?_⟩
      rw [← hline, hline']
      simpa using hdiffers
    rw [wp_bind, wp_update, wp_bind]
    refine wp_mono (accounts_meanwhile henvironment (h.apply hreset hkind hsame' ?_ ?_))
      (fun _ w' h' => accounts_transport henvironment h') fun _ _ h' => h'
    · rw [descriptionOf, if_neg hkind]
      split
      · rfl
      · rfl
    · split
      · rfl
      · rfl

theorem accounts_applyMessage {message : RelayMessage}
    (h : Accounts localDeviceId remoteDeviceId [] (message :: coming) w)
    (hreset : w.resetMessages = []) (hmessage : WellFormed remoteDeviceId message) :
    Wp (applyMessage environment message)
      (fun _ => Accounts localDeviceId remoteDeviceId [] coming) E w := by
  have hdescription : message.kind ≠ .iceCandidate →
      Wp (if message.payload = [] then raise (.invalidArgument "empty session description")
        else applyDescription environment message)
        (fun _ => Accounts localDeviceId remoteDeviceId [] coming) E w := by
    intro hkind
    rw [if_neg hmessage.payload]
    exact accounts_applyDescription henvironment h hreset hkind
  rw [applyMessage, wp_bind, wp_state, if_neg fun hne => hne (hmessage.sender.trans
    h.remoteDeviceId.symm)]
  cases hkind : message.kind with
  | offer => exact hdescription (by rw [hkind]; exact MessageKind.noConfusion)
  | answer => exact hdescription (by rw [hkind]; exact MessageKind.noConfusion)
  | iceRestart => exact hdescription (by rw [hkind]; exact MessageKind.noConfusion)
  | iceCandidate =>
    obtain ⟨hmid, hindex⟩ := hmessage.candidate hkind
    refine wp_ite (fun hinvalid => ?_) fun _ => h.wait hreset hkind
    rcases hinvalid with hpayload | hmid' | hlt
    · exact absurd hpayload hmessage.payload
    · exact absurd hmid' hmid
    · exact absurd hlt (Int.not_lt.2 hindex)

theorem accounts_receive {message : RelayMessage}
    (h : Accounts localDeviceId remoteDeviceId [] (message :: coming) w)
    (hmessage : WellFormed remoteDeviceId message) :
    Wp (receive environment message)
      (fun _ => Accounts localDeviceId remoteDeviceId [] coming) E w := by
  rw [receive, wp_bind]
  refine wp_mono (accounts_meanwhile henvironment h) (fun _ w' h' => ?_) fun _ _ h' => h'
  rw [wp_bind, wp_state]
  refine wp_ite (fun hreset => h'.keep hreset) fun hreset => ?_
  exact accounts_applyMessage henvironment h' (not_ne_iff.1 hreset) hmessage

theorem accounts_inbox {messages : List RelayMessage}
    (h : Accounts localDeviceId remoteDeviceId [] messages w)
    (hmessages : ∀ message ∈ messages, WellFormed remoteDeviceId message) :
    Wp (messages.forM (receive environment))
      (fun _ => Accounts localDeviceId remoteDeviceId [] []) E w := by
  induction messages generalizing w with
  | nil => exact h
  | cons message rest ih =>
    obtain ⟨hmessage, hrest⟩ := List.forall_mem_cons.1 hmessages
    rw [show (message :: rest).forM (receive environment) = (receive environment message >>=
      fun _ => rest.forM (receive environment)) from rfl, wp_bind]
    exact wp_mono (accounts_receive henvironment h hmessage) (fun _ w' h' => ih h' hrest)
      fun _ _ h' => h'

/-- The candidates that were waiting are passed one after the other. -/
theorem accounts_passed {waiting : List IceCandidate} (hwaiting : w.pendingIce = [])
    (h : Accounts localDeviceId remoteDeviceId (waiting.map .applyRemoteIceCandidate) coming w) :
    Wp (waiting.forM (pass environment))
      (fun _ w' => w'.pendingIce = [] ∧ Accounts localDeviceId remoteDeviceId [] coming w')
      E w := by
  induction waiting generalizing w with
  | nil => exact ⟨hwaiting, h⟩
  | cons candidate rest ih =>
    have hpending : Wp (meanwhile environment) (fun _ w' => w'.pendingIce = []) E w :=
      wp_meanwhile (fun _ => hwaiting) fun w' hw' _ interrupt _ =>
        (interrupt_same w' interrupt).2 hw'
    rw [show (candidate :: rest).forM (pass environment) = (pass environment candidate >>=
      fun _ => rest.forM (pass environment)) from rfl, wp_bind, pass, wp_bind]
    have haccounts : Wp (meanwhile environment) (fun _ => Accounts localDeviceId remoteDeviceId
        ((candidate :: rest).map .applyRemoteIceCandidate) coming) E w :=
      accounts_meanwhile henvironment h
    refine wp_mono (wp_and hpending haccounts) (fun _ w' h' => ?_) fun _ _ h' => h'.1
    rw [transport, wp_bind, wp_state, henvironment.transport]
    exact ih h'.1 h'.2.called

omit henvironment in
/-- A description has completed: what waits is going to be passed. -/
theorem Accounts.pass (h : Accounts localDeviceId remoteDeviceId [] coming w)
    (hresult : w.remoteDescriptionResult = some true) :
    Accounts localDeviceId remoteDeviceId (w.pendingIce.map .applyRemoteIceCandidate) coming
      { w with pendingIce := [], ledger := dropWaiting .passed w.ledger } where
  localDeviceId := h.localDeviceId
  remoteDeviceId := h.remoteDeviceId
  ledger := by
    obtain ⟨settled, hsettled, hledger⟩ := h.ledger
    refine ⟨settled ++ w.pendingIce.map (·, .passed), fun entry hentry => ?_, ?_⟩
    · rcases List.mem_append.1 hentry with hentry | hentry
      · exact hsettled entry hentry
      · obtain ⟨candidate, -, rfl⟩ := List.mem_map.1 hentry
        exact Fate.noConfusion
    · rw [hledger, dropWaiting_eq hsettled]
      exact (List.append_nil _).symm
  passed := by
    obtain ⟨settled, hsettled, hledger⟩ := h.ledger
    have hpassed := h.passed
    rw [hledger, List.filter_append, filter_pending Fate.noConfusion, List.append_nil] at hpassed
    have hall : (w.pendingIce.map (·, Fate.passed)).filter (fun entry => entry.2 = .passed) =
        w.pendingIce.map (·, .passed) :=
      List.filter_eq_self.2 fun entry hentry => by
        obtain ⟨candidate, -, rfl⟩ := List.mem_map.1 hentry
        rfl
    rw [hledger, dropWaiting_eq hsettled, List.filter_append, hall, List.map_append, ← hpassed,
      List.append_assoc, List.map_map]
    congr 1
    simp [candidates, Call.candidate?, Function.comp_def]
  handled := by
    obtain ⟨handled, hreceived, hremembers, hcertificate, hdescriptions, hcandidates⟩ := h.handled
    refine ⟨handled, hreceived, hremembers, hcertificate, ?_, ?_⟩
    · rw [← hdescriptions]
      congr 1
      simp [descriptions, Call.isDescription]
    · rw [map_fst_dropWaiting, hcandidates]
  order := h.order
  ready _ := (h.result true hresult).2
  result := h.result
  described := h.described
  fresh _ _ := hresult

theorem accounts_applyReadyCandidates (h : Accounts localDeviceId remoteDeviceId [] [] w) :
    Wp (applyReadyCandidates environment)
      (fun _ w' => Accounts localDeviceId remoteDeviceId [] [] w' ∧
        (LatestCompleted w'.trace → w'.pendingIce = [])) E w := by
  rw [applyReadyCandidates, wp_bind, wp_state]
  cases hresult : w.remoteDescriptionResult with
  | none =>
    refine ⟨h, fun hlatest => ?_⟩
    rw [h.fresh rfl hlatest] at hresult
    cases hresult
  | some success =>
    obtain ⟨rfl, -⟩ := h.result success hresult
    rw [wp_bind, wp_update]
    exact wp_mono (accounts_passed henvironment rfl (h.pass hresult))
      (fun _ w' h' => ⟨h'.2, fun _ => h'.1⟩) fun _ _ h' => h'

/-- `Pump`. -/
theorem accounts_pump (h : Accounts localDeviceId remoteDeviceId [] [] w) :
    Wp (pump environment)
      (fun _ w' => Accounts localDeviceId remoteDeviceId [] [] w' ∧
        (w'.resetMessages = [] → LatestCompleted w'.trace → w'.pendingIce = []))
      (fun _ => Accounts localDeviceId remoteDeviceId [] []) w := by
  rw [pump, wp_bind, wp_state, wp_bind, wp_update, wp_bind]
  refine wp_mono (wp_forM (fun message _ w' h' => accounts_forward henvironment h' message)
    (h.frame _ _ _)) (fun _ w' h' => ?_) fun _ _ h' => h'
  rw [wp_bind]
  refine wp_mono (accounts_meanwhile henvironment h') (fun _ w' h' => ?_) fun _ _ h' => h'
  rw [wp_bind]
  refine wp_mono (accounts_drainInbox henvironment h') (fun messages w' h' => ?_) fun _ _ h' => h'
  rw [wp_bind]
  refine wp_mono (accounts_inbox henvironment h'.2 h'.1) (fun _ w' h' => ?_) fun _ _ h' => h'
  rw [wp_bind]
  refine wp_mono (accounts_meanwhile henvironment h') (fun _ w' h' => ?_) fun _ _ h' => h'
  rw [wp_bind, wp_state]
  refine wp_when (fun _ => ?_) fun hreset => ⟨h', fun hnil => absurd hnil hreset⟩
  exact wp_mono (accounts_applyReadyCandidates henvironment h')
    (fun _ w' h' => ⟨h'.1, fun _ => h'.2⟩) fun _ _ h' => h'

/-- A call of the owner that takes nothing away from the session. -/
theorem accounts_perform (action : Action) (h : Accounts localDeviceId remoteDeviceId [] [] w)
    (hkept : action = .takeResetMessages → w.resetMessages = []) :
    Wp (perform environment action) (fun _ => Accounts localDeviceId remoteDeviceId [] [])
      (fun _ => Accounts localDeviceId remoteDeviceId [] []) w := by
  have hreset : Wp (meanwhile environment) (fun _ w' => w'.resetMessages = w.resetMessages)
      (fun _ => Accounts localDeviceId remoteDeviceId [] []) w :=
    wp_meanwhile (fun _ => rfl) fun w' hw' _ interrupt _ =>
      (interrupt_same w' interrupt).1.trans hw'
  have haccounts : Wp (meanwhile environment) (fun _ => Accounts localDeviceId remoteDeviceId [] [])
      (fun _ => Accounts localDeviceId remoteDeviceId [] []) w := accounts_meanwhile henvironment h
  rw [perform.eq_def, wp_bind]
  refine wp_mono (wp_and hreset haccounts) (fun _ w' h' => ?_) fun _ _ h' => h'.1
  obtain ⟨hreset, h'⟩ := h'
  cases action with
  | startOffer => exact accounts_transport henvironment (h'.owe rfl rfl)
  | restartIce =>
    rw [restartIce, wp_bind, wp_update, wp_bind]
    refine wp_mono (accounts_meanwhile henvironment h'.restart) (fun _ w'' h'' => ?_)
      fun _ _ h'' => h''
    exact accounts_transport henvironment (h''.owe rfl rfl)
  | pump => exact wp_mono (accounts_pump henvironment h') (fun _ _ h'' => h''.1) fun _ _ h'' => h''
  | takeResetMessages =>
    have hnil : w'.resetMessages = [] := hreset.trans (hkept rfl)
    have hsame : { w' with resetMessages := [] } = w' := by rw [← hnil]
    rw [takeResetMessages, wp_bind, wp_bind, wp_state, wp_bind, wp_update, hsame]
    exact h'

omit henvironment in
theorem Accounts.preserves (h : Accounts localDeviceId remoteDeviceId [] [] w) : Preserves w where
  messages := by
    obtain ⟨handled, hreceived, hremembers, -, hdescriptions, hcandidates⟩ := h.handled
    exact ⟨handled, hreceived.trans (List.append_nil _), hremembers,
      (List.append_nil _).symm.trans hdescriptions, hcandidates⟩
  passed := (List.append_nil _).symm.trans h.passed
  waiting := by
    obtain ⟨settled, hsettled, hledger⟩ := h.ledger
    have hnone : settled.filter (fun entry => entry.2 = .waiting) = [] :=
      List.filter_eq_nil_iff.2 fun entry hentry => by simpa using hsettled entry hentry
    have hall : (w.pendingIce.map (·, Fate.waiting)).filter (fun entry => entry.2 = .waiting) =
        w.pendingIce.map (·, .waiting) :=
      List.filter_eq_self.2 fun entry hentry => by
        obtain ⟨candidate, -, rfl⟩ := List.mem_map.1 hentry
        rfl
    rw [hledger, List.filter_append, hnone, hall, List.nil_append, List.map_map]
    exact (List.map_id _).symm
  order := h.order

omit henvironment in
/-- When nothing waits, what was not dropped has been passed. -/
theorem Accounts.passed_all (h : Accounts localDeviceId remoteDeviceId [] [] w)
    (hpending : w.pendingIce = []) :
    candidates (calls w.trace) =
      (w.ledger.filter fun entry => entry.2 ≠ .discarded).map Prod.fst := by
  obtain ⟨settled, hsettled, hledger⟩ := h.ledger
  rw [h.preserves.passed, hledger, hpending, List.map_nil, List.append_nil]
  congr 1
  refine List.filter_congr fun entry hentry => ?_
  have hwaiting := hsettled entry hentry
  cases hfate : entry.2 with
  | waiting => exact absurd hfate hwaiting
  | passed => rfl
  | discarded => rfl

end Pump

theorem accounts_create {localDeviceId remoteDeviceId : DeviceId} {w : World}
    (h : create localDeviceId remoteDeviceId = .ok w) :
    Accounts localDeviceId remoteDeviceId [] [] w := by
  rw [create] at h
  split at h
  · cases h
  · cases h
    exact {
      localDeviceId := rfl
      remoteDeviceId := rfl
      ledger := ⟨[], by simp, rfl⟩
      passed := rfl
      handled := ⟨[], rfl, ⟨by simp, by simp⟩, rfl, rfl, rfl⟩
      order := by simp
      ready := fun hne => absurd rfl hne
      result := by simp
      described := by simp
      fresh := by rintro - ⟨before, index, after, htrace, -⟩; simp at htrace }

/-- **What a session does with its inbox**, in every run until `TakeResetMessages` takes something
away: the messages are handled up to the first that names another certificate, and kept from there
on; after a pump that keeps nothing, with the last description completed, every candidate that no
restart has dropped has been passed to the transport. -/
theorem signaling_session {environment : Environment} {localDeviceId remoteDeviceId : DeviceId}
    {w₀ : World} (hcreate : create localDeviceId remoteDeviceId = .ok w₀)
    (henvironment : Reliable localDeviceId remoteDeviceId environment) (actions : List Action)
    (hkept : Run.Along (step environment)
      (fun w action => action = .takeResetMessages → w.resetMessages = []) w₀ actions) :
    Preserves (Run.run (step environment) w₀ actions) ∧
      ∀ w, perform environment .pump (Run.run (step environment) w₀ actions) = (.ok (), w) →
        w.resetMessages = [] → LatestCompleted w.trace →
          w.ledger.map Prod.fst = candidatesOf w.received ∧ candidates (calls w.trace) =
            (w.ledger.filter fun entry => entry.2 ≠ .discarded).map Prod.fst := by
  have haccounts : Accounts localDeviceId remoteDeviceId [] []
      (Run.run (step environment) w₀ actions) :=
    Run.run_invariant (fun w action hkept h => of_wp (accounts_perform henvironment action h hkept))
      actions w₀ hkept (accounts_create hcreate)
  refine ⟨haccounts.preserves, fun w hpump hreset hlatest => ?_⟩
  have hwp : Wp (perform environment .pump)
      (fun _ w' => Accounts localDeviceId remoteDeviceId [] [] w' ∧
        (w'.resetMessages = [] → LatestCompleted w'.trace → w'.pendingIce = []))
      (fun _ => Accounts localDeviceId remoteDeviceId [] [])
      (Run.run (step environment) w₀ actions) := by
    show Wp (meanwhile environment >>= fun _ => pump environment) _ _ _
    rw [wp_bind]
    exact wp_mono (accounts_meanwhile henvironment haccounts)
      (fun _ w' h' => accounts_pump henvironment h') fun _ _ h' => h'
  obtain ⟨haccounts', hpending⟩ := of_wp_run hwp hpump
  refine ⟨?_, haccounts'.passed_all (hpending hreset hlatest)⟩
  obtain ⟨handled, hreceived, -, -, hcandidates⟩ := haccounts'.preserves.messages
  rw [hcandidates, hreceived, hreset, List.append_nil]

/-- The offer of a peer, and a candidate after it. -/
def reconnection (certificate : String) : List RelayMessage :=
  [⟨.offer, ascii "b", ascii "a", ascii certificate, [], -1, rfl⟩,
    ⟨.iceCandidate, ascii "b", ascii "a", ascii "candidate", ascii "0", 0, rfl⟩]

/-- A peer that connects, and connects again with another certificate; each description is done
when the lock is free. -/
def reconnecting : Environment where
  meanwhile _ := [.remoteDescription 0 true]
  forward _ _ := none
  drainInbox n _ := .ok (reconnection
    (if n < 8 then "a=fingerprint:sha-256 AA:BB" else "a=fingerprint:sha-256 CC:DD"))
  transport _ _ := none

theorem reliable_reconnecting : Reliable (ascii "a") (ascii "b") reconnecting where
  inbox n messages h message hmessage := by
    have hall : ∀ certificate ∈ ["a=fingerprint:sha-256 AA:BB", "a=fingerprint:sha-256 CC:DD"],
        ∀ message ∈ reconnection certificate, message.senderDeviceId = ascii "b" ∧
          message.payload ≠ [] ∧ (message.kind = .iceCandidate →
            message.candidateMid ≠ [] ∧ -1 ≤ message.candidateMlineIndex) := by decide +kernel
    cases h
    obtain ⟨hsender, hpayload, hcandidate⟩ := hall _ (by split <;> simp) message hmessage
    exact ⟨hsender, hpayload, hcandidate⟩
  results n index := by simp [reconnecting]
  transport n call := rfl

/-- The session of `a` with `b`. -/
def connected : World := { localDeviceId := ascii "a", remoteDeviceId := ascii "b" }

/-- The second connection is kept for the peer that replaces this one. -/
theorem signaling_session_reconnecting :
    Preserves (Run.run (step reconnecting) connected [.pump, .takeResetMessages, .pump]) ∧
      (Run.run (step reconnecting) connected
        [.pump, .takeResetMessages, .pump]).resetMessages =
          reconnection "a=fingerprint:sha-256 CC:DD" := by
  have hcreate : create (ascii "a") (ascii "b") = .ok connected := if_neg (by decide +kernel)
  exact ⟨(signaling_session hcreate reliable_reconnecting [.pump, .takeResetMessages, .pump]
    (by decide +kernel)).1, by decide +kernel⟩

end Signaling

end VeritasSync
