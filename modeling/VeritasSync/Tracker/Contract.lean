import Mathlib
import VeritasSync.Tracker.Relay

/-!
# The contract of the tracker

`TrackerRoom` is the model of a room that the engine's tests run against in place of the tracker.
The tracker is written apart from it, over tables that hold all rooms.

`Event` is what both do: admit a device, forward a message, drain an inbox.  A message gets to the
tracker as the body of a request, where it has to be UTF-8 and has to fit (`Deliverable`); the
contract takes any bytes.  Apart from that they agree on every sequence of events
(`tracker_refines_contract`).

Why this is worth proving: the engine is tested against `TrackerRoom`, so whatever the tests have
shown about signaling has been shown about a tracker that behaves like it.  A difference between the
two would be a difference between the tests and the program.  There is one, in what counts as a
message, and it is in the statement.

The tracker's state contains much that the contract does not know, such as other rooms, sessions,
nonces and the numbers of signals.  The relation says what a room has to do with a contract, and
each event keeps it.
-/

set_option autoImplicit false

namespace VeritasSync

namespace Tracker

/-! ## `TrackerRoom`

The class as it is, with its checks in their order.  A drain empties the inbox. -/

/-- `JoinRequest`. -/
structure JoinRequest where
  taskId : Bytes
  syncKey : Bytes
  deviceId : DeviceId
  deviceFingerprint : Bytes
  role : Role
  authorizationToken : Bytes
  deriving DecidableEq

/-- `RelayMessage`; the index is an `int32_t`. -/
structure RelayMessage where
  kind : MessageKind
  senderDeviceId : DeviceId
  recipientDeviceId : DeviceId
  payload : Bytes
  candidateMid : Bytes
  candidateMlineIndex : Int
  inRange : inRange 32 candidateMlineIndex = true
  deriving DecidableEq

/-- `kMaxSignalPayload`. -/
def maxSignalPayload : Nat := 64 * 1024

/-- `TrackerRoom`. -/
structure TrackerRoom where
  taskId : Bytes
  topology : Topology
  members : List JoinRequest
  inboxes : DeviceId → List RelayMessage

namespace TrackerRoom

/-- The constructor. -/
def new (taskId : Bytes) (topology : Topology) : Except String TrackerRoom :=
  if taskId = [] then .error "tracker task id is required"
  else .ok ⟨taskId, topology, [], fun _ => []⟩

/-- `HasMember`. -/
def hasMember (room : TrackerRoom) (deviceId : DeviceId) : Bool :=
  room.members.any fun member => member.deviceId = deviceId

/-- `members_.at`. -/
def find (room : TrackerRoom) (deviceId : DeviceId) : Option JoinRequest :=
  room.members.find? fun member => member.deviceId = deviceId

/-- `Join`. -/
def join (room : TrackerRoom) (request : JoinRequest) : Except String TrackerRoom :=
  if request.taskId ≠ room.taskId ∨ request.syncKey = [] ∨ request.deviceId = [] ∨
      request.deviceFingerprint = [] ∨ request.authorizationToken = [] then
    .error "invalid tracker join"
  else if room.hasMember request.deviceId then .error "device already joined"
  else
    match room.topology with
    | .oneWay =>
      if request.role ≠ .source ∧ request.role ≠ .target then
        .error "one-way rooms require source or target"
      else if request.role = .source ∧ (room.members.any fun member => member.role = .source) then
        .error "one-way rooms have one source"
      else .ok { room with members := room.members ++ [request] }
    | .bidirectional =>
      if request.role ≠ .peer then .error "bidirectional rooms require peer role"
      else if room.members.length ≥ 2 then .error "bidirectional rooms have exactly two peers"
      else .ok { room with members := room.members ++ [request] }

/-- The message goes to the inbox of its recipient. -/
def push (room : TrackerRoom) (message : RelayMessage) : TrackerRoom :=
  { room with
    inboxes := Function.update room.inboxes message.recipientDeviceId
      (room.inboxes message.recipientDeviceId ++ [message]) }

/-- `Forward`. -/
def forward (room : TrackerRoom) (message : RelayMessage) : Except String TrackerRoom :=
  match room.find message.senderDeviceId, room.find message.recipientDeviceId with
  | some sender, some recipient =>
    if message.senderDeviceId = message.recipientDeviceId then .error "relay members are invalid"
    else if message.payload = [] ∨ message.payload.length > maxSignalPayload then
      .error "signal payload is invalid"
    else
      match room.topology with
      | .oneWay =>
        let sourceToTarget := sender.role = .source ∧ recipient.role = .target
        let targetToSource := sender.role = .target ∧ recipient.role = .source
        if ¬ sourceToTarget ∧ ¬ targetToSource then .error "one-way relay direction is invalid"
        else if targetToSource ∧ message.kind ≠ .answer ∧ message.kind ≠ .iceCandidate then
          .error "one-way target cannot initiate signaling"
        else if sourceToTarget ∧ message.kind = .answer then
          .error "one-way source cannot send an answer"
        else .ok (room.push message)
      | .bidirectional => .ok (room.push message)
  | _, _ => .error "relay members are invalid"

/-- `DrainInbox`. -/
def drainInbox (room : TrackerRoom) (deviceId : DeviceId) :
    Except String (List RelayMessage × TrackerRoom) :=
  if !room.hasMember deviceId then .error "unknown device"
  else .ok (room.inboxes deviceId,
    { room with inboxes := Function.update room.inboxes deviceId [] })

end TrackerRoom

/-! ## Messages on the wire

The body of a request is made by the client and taken apart by the tracker.  A message arrives as it
was sent if it is UTF-8 and if the body stays within the limit; otherwise the request is refused,
and nothing is forwarded. -/

/-- The body of a request to send a signal, as `TrackerClient::Forward` writes it. -/
def forwardBody (roomId : Bytes) (message : RelayMessage) : Bytes :=
  encodeField roomId ++ [tab] ++ kindName message.kind ++ [tab] ++
    encodeField message.recipientDeviceId ++ [tab] ++ encodeField message.payload ++ [tab] ++
    encodeField message.candidateMid ++ [tab] ++ printInt message.candidateMlineIndex

theorem plain_kindName (kind : MessageKind) : ∀ c ∈ kindName kind, isPlain c = true := by
  cases kind <;> decide +kernel

theorem validUtf8_kindName (kind : MessageKind) : validUtf8 (kindName kind) = true :=
  validUtf8_of_ascii fun _ hc => (Field.word _ (plain_kindName kind)).lt_of_mem hc

theorem validUtf8_printInt (i : Int) : validUtf8 (printInt i) = true :=
  validUtf8_of_ascii fun _ hc => (Field.number i).lt_of_mem hc

/-- A message that gets through `fields`: its texts are UTF-8, and the body is not too long. -/
structure Deliverable (roomId : Bytes) (message : RelayMessage) : Prop where
  room : validUtf8 roomId = true
  recipient : validUtf8 message.recipientDeviceId = true
  payload : validUtf8 message.payload = true
  mid : validUtf8 message.candidateMid = true
  short : (forwardBody roomId message).length ≤ maxBodyBytes

/-- The fields of a request to send a signal. -/
def forwardFields (roomId : Bytes) (message : RelayMessage) : List Field :=
  [.escaped roomId, .word (kindName message.kind) (plain_kindName message.kind),
    .escaped message.recipientDeviceId, .escaped message.payload, .escaped message.candidateMid,
    .number message.candidateMlineIndex]

theorem forwardBody_eq (roomId : Bytes) (message : RelayMessage) :
    forwardBody roomId message = joinFields (forwardFields roomId message) := by
  simp only [forwardFields, joinFields_cons_cons, joinFields_singleton, forwardBody,
    List.append_assoc]
  rfl

/-- **What the tracker reads of a line of fields**: their texts, if they are UTF-8 and the line is
not too long. -/
theorem fields_joinFields {parts : List Field} (hne : parts ≠ [])
    (hlength : (joinFields parts).length ≤ maxBodyBytes)
    (hvalid : ∀ part ∈ parts, validUtf8 part.text = true) :
    fields (joinFields parts) parts.length = .ok (parts.map Field.text) := by
  have hascii : validUtf8 (joinFields parts) = true := by
    refine validUtf8_of_ascii fun c hc => ?_
    rcases mem_joinFields hc with rfl | ⟨part, -, hmem⟩
    · decide
    · exact part.lt_of_mem hmem
  have hlines : ¬ ((parts.map Field.raw).length ≠ parts.length ∨
      ((parts.map Field.raw).any fun part => '\r'.toUInt8 ∈ part ∨ newline ∈ part) = true) := by
    rw [List.length_map, not_or, not_not, List.any_eq_true]
    refine ⟨rfl, ?_⟩
    rintro ⟨raw, hraw, hbreak⟩
    obtain ⟨part, -, rfl⟩ := List.mem_map.mp hraw
    rcases of_decide_eq_true hbreak with hmem | hmem
    · exact part.not_mem (by decide) (by decide) hmem
    · exact part.not_mem (by decide) (by decide) hmem
  have hdecode : (parts.map Field.raw).mapM decodeField = .ok (parts.map Field.text) := by
    clear hne hlength hascii hlines
    induction parts with
    | nil => rfl
    | cons part rest ih =>
      have hpart : decodeField part.raw = .ok part.text := by
        rw [decodeField, part.unescape]
        exact if_pos (hvalid part List.mem_cons_self)
      rw [List.map_cons, List.mapM_cons, hpart, ih fun other hother =>
        hvalid other (List.mem_cons_of_mem _ hother)]
      rfl
  rw [fields, if_neg (not_lt.mpr hlength), hascii, splitOn_joinFields hne]
  simp only [Bool.not_true, Bool.false_eq_true, if_false, if_neg hlines]
  exact hdecode

/-- The tracker reads a message as it was sent. -/
theorem fields_forwardBody {roomId : Bytes} {message : RelayMessage}
    (h : Deliverable roomId message) :
    fields (forwardBody roomId message) 6 =
      .ok [roomId, kindName message.kind, message.recipientDeviceId, message.payload,
        message.candidateMid, printInt message.candidateMlineIndex] := by
  rw [forwardBody_eq]
  have hshort : (joinFields (forwardFields roomId message)).length ≤ maxBodyBytes := by
    rw [← forwardBody_eq]
    exact h.short
  refine fields_joinFields (List.cons_ne_nil _ _) hshort ?_
  intro part hpart
  simp only [forwardFields, List.mem_cons, List.not_mem_nil, or_false] at hpart
  rcases hpart with rfl | rfl | rfl | rfl | rfl | rfl
  · exact h.room
  · exact validUtf8_kindName message.kind
  · exact h.recipient
  · exact h.payload
  · exact h.mid
  · exact validUtf8_printInt message.candidateMlineIndex

/-! ## Events -/

/-- A device that asks to be admitted.  The tracker has authenticated it, so it has an id and a
fingerprint; the key and the token are only known to the contract. -/
structure Applicant where
  auth : DeviceAuth
  role : Role
  syncKey : Bytes
  authorizationToken : Bytes
  deviceId_ne : auth.deviceId ≠ []
  fingerprint_ne : auth.fingerprint ≠ []
  syncKey_ne : syncKey ≠ []
  authorizationToken_ne : authorizationToken ≠ []

/-- What the contract is asked. -/
def Applicant.request (applicant : Applicant) (taskId : Bytes) : JoinRequest :=
  ⟨taskId, applicant.syncKey, applicant.auth.deviceId, applicant.auth.fingerprint, applicant.role,
    applicant.authorizationToken⟩

/-- What happens in a room. -/
inductive Event where
  | welcome (applicant : Applicant) (now : Millis)
  /-- A device with a valid session sends a message of its own. -/
  | forward (auth : DeviceAuth) (message : RelayMessage)
      (own : message.senderDeviceId = auth.deviceId) (now : Millis)
  /-- A device with a valid session drains its inbox, some batches of it. -/
  | drain (auth : DeviceAuth) (rounds : Nat)

/-- The batches of some drains, and the tables after them. -/
def Tables.drainRounds (db : Tables) (auth : DeviceAuth) (roomId : Bytes) :
    Nat → List Signal × Tables
  | 0 => ([], db)
  | rounds + 1 =>
    let rest := (db.drainSignals auth roomId).2.drainRounds auth roomId rounds
    (db.drainRows roomId auth.deviceId ++ rest.1, rest.2)

namespace Tables

variable (auth : DeviceAuth) (roomId : Bytes)

/-- Drains touch no table but the signals. -/
theorem drainRounds_signals (rounds : Nat) (db : Tables) :
    ∃ signals, (db.drainRounds auth roomId rounds).2 = { db with signals } := by
  induction rounds generalizing db with
  | zero => exact ⟨db.signals, rfl⟩
  | succ rounds ih =>
    obtain ⟨first, hfirst⟩ := db.drainSignals_signals auth roomId
    obtain ⟨signals, hrest⟩ := ih (db.drainSignals auth roomId).2
    rw [drainRounds, hrest, hfirst]
    exact ⟨signals, rfl⟩

theorem Numbered.drainRounds (rounds : Nat) {db : Tables} (h : db.Numbered) :
    (db.drainRounds auth roomId rounds).2.Numbered := by
  induction rounds generalizing db with
  | zero => exact h
  | succ rounds ih => exact ih (h.drainSignals auth)

/-- **Some drains** return the first signals of the inbox.  One drain returns at most 256 of them,
so the contract's single drain is several of the tracker's. -/
theorem Numbered.drainRounds_eq (rounds : Nat) {db : Tables} (h : db.Numbered) :
    (db.drainRounds auth roomId rounds).1 =
      (db.inbox roomId auth.deviceId).take (maxDrainSignals * rounds) := by
  induction rounds generalizing db with
  | zero => rfl
  | succ rounds ih =>
    rw [Tables.drainRounds, ih (h.drainSignals auth), h.drainRows_eq, h.inbox_drainSignals auth,
      Nat.mul_succ, Nat.add_comm, List.take_add]

/-- And leave the others. -/
theorem Numbered.inbox_drainRounds (rounds : Nat) {db : Tables} (h : db.Numbered) :
    (db.drainRounds auth roomId rounds).2.inbox roomId auth.deviceId =
      (db.inbox roomId auth.deviceId).drop (maxDrainSignals * rounds) := by
  induction rounds generalizing db with
  | zero => rfl
  | succ rounds ih =>
    rw [Tables.drainRounds, ih (h.drainSignals auth), h.inbox_drainSignals auth, List.drop_drop,
      Nat.mul_succ, Nat.add_comm]

theorem inbox_drainRounds_of_ne (rounds : Nat) (db : Tables) {recipient : DeviceId}
    (hne : recipient ≠ auth.deviceId) :
    (db.drainRounds auth roomId rounds).2.inbox roomId recipient = db.inbox roomId recipient := by
  induction rounds generalizing db with
  | zero => rfl
  | succ rounds ih =>
    rw [Tables.drainRounds, ih, inbox_drainSignals_of_ne]
    exact fun h => hne h.2

end Tables

/-- An event at the tracker. -/
def trackerDo (roomId : Bytes) (topology : Topology) (fresh : Fresh) (db : Tables) :
    Event → Except ApiError (List Signal × Tables)
  | .welcome applicant now => do
    let db ← db.admitMember roomId topology applicant.auth (some applicant.role) now.1
    pure ([], db)
  | .forward auth message _ now => do
    let values ← fields (forwardBody roomId message) Endpoint.sendSignal.fieldCount
    let (_, db) ← serve db .sendSignal auth values now fresh
    pure ([], db)
  | .drain auth rounds => pure (db.drainRounds auth roomId rounds)

/-- An event in the contract. -/
def contractDo (room : TrackerRoom) : Event → Except String (List RelayMessage × TrackerRoom)
  | .welcome applicant _ => do
    let room ← room.join (applicant.request room.taskId)
    pure ([], room)
  | .forward _ message _ _ => do
    let room ← room.forward message
    pure ([], room)
  | .drain auth _ => room.drainInbox auth.deviceId

/-- The message as the tracker stores it. -/
def RelayMessage.message (roomId : Bytes) (message : RelayMessage) : Message :=
  ⟨roomId, message.kind, message.senderDeviceId, message.recipientDeviceId, message.payload,
    message.candidateMid, message.candidateMlineIndex⟩

/-- A room at the tracker and in the contract. -/
structure Sides where
  tracker : Tables
  contract : TrackerRoom

/-- The state after an event; one that is refused changes nothing. -/
def after {ε α σ : Type} (s : σ) : Except ε (α × σ) → σ
  | .ok (_, s') => s'
  | .error _ => s

/-- One event on both sides. -/
def Sides.step (roomId : Bytes) (topology : Topology) (fresh : Fresh) (s : Sides) (event : Event) :
    Sides :=
  ⟨after s.tracker (trackerDo roomId topology fresh s.tracker event),
    after s.contract (contractDo s.contract event)⟩

/-- Both sides accept the event, with the same messages, or both refuse it. -/
def Sides.Agree (roomId : Bytes) (topology : Topology) (fresh : Fresh) (s : Sides) (event : Event) :
    Prop :=
  (trackerDo roomId topology fresh s.tracker event).toOption.map (fun r => r.1.map Signal.message) =
    (contractDo s.contract event).toOption.map fun r => r.1.map (RelayMessage.message roomId)

/-- **What the tracker asks for and the contract does not**: that a message gets through `fields`,
and that the ids of signals are not used up.  A device that drains is a member and drains until its
inbox is empty. -/
def Sides.Proper (roomId : Bytes) (s : Sides) : Event → Prop
  | .welcome _ _ => True
  | .forward _ message _ _ => Deliverable roomId message ∧ s.tracker.signalSeq < maxSignalId
  | .drain auth rounds => (s.tracker.activeRole roomId auth.deviceId).isSome = true ∧
      (s.tracker.inbox roomId auth.deviceId).length ≤ maxDrainSignals * rounds

/-! ## The relation

Members are the same devices with the same roles, and each inbox holds the same messages in the same
order.  Ids of signals and times have no counterpart. -/

/-- The device ids and roles of the members of a room. -/
def Tables.roster (db : Tables) (roomId : Bytes) : List (DeviceId × Role) :=
  (db.members.filter fun member => member.roomId = roomId).map
    fun member => (member.deviceId, member.role)

/-- The device ids and roles of the members of a contract's room. -/
def TrackerRoom.roster (room : TrackerRoom) : List (DeviceId × Role) :=
  room.members.map fun member => (member.deviceId, member.role)

/-- **The relation** between the tables and the contract. -/
structure Refines (roomId : Bytes) (topology : Topology) (db : Tables) (room : TrackerRoom) :
    Prop where
  numbered : db.Numbered
  found : ∃ row, db.findRoom roomId = some row ∧ row.topology = topology
  sameTopology : room.topology = topology
  roster : db.roster roomId = room.roster
  active : ∀ member ∈ db.members, member.roomId = roomId → member.revoked = false
  peers : topology = .bidirectional → ∀ member ∈ room.members, member.role = .peer
  inboxes : ∀ recipient, (db.inbox roomId recipient).map Signal.message =
    (room.inboxes recipient).map (RelayMessage.message roomId)

namespace Refines

variable {roomId : Bytes} {topology : Topology} {db : Tables} {room : TrackerRoom}

theorem activeMembers_eq (h : Refines roomId topology db room) :
    db.activeMembers roomId = db.members.filter fun member => member.roomId = roomId := by
  refine List.filter_congr fun member hmember => ?_
  by_cases hroom : member.roomId = roomId
  · simp [hroom, h.active member hmember hroom]
  · simp [hroom]

/-- Both sides count the same members. -/
theorem memberCount_eq (h : Refines roomId topology db room) :
    db.memberCount roomId = room.members.length := by
  have hlength := congrArg List.length h.roster
  rw [Tables.roster, TrackerRoom.roster, List.length_map, List.length_map] at hlength
  rw [Tables.memberCount, h.activeMembers_eq, hlength]

/-- The row of a member, looked up among the members of its room. -/
theorem findMember_eq (db : Tables) (roomId : Bytes) (deviceId : DeviceId) :
    db.findMember roomId deviceId =
      (db.members.filter fun member => member.roomId = roomId).find?
        fun member => member.deviceId = deviceId := by
  rw [Tables.findMember, List.find?_filter]
  simp only [Bool.decide_and, Bool.decide_eq_true]

/-- The role of a member, from the rosters. -/
theorem findMember_role (h : Refines roomId topology db room) (deviceId : DeviceId) :
    (db.findMember roomId deviceId).map MemberRow.role =
      (room.find deviceId).map JoinRequest.role := by
  have htracker : (db.findMember roomId deviceId).map MemberRow.role =
      ((db.roster roomId).find? fun entry => entry.1 = deviceId).map Prod.snd := by
    rw [findMember_eq, Tables.roster, List.find?_map, Option.map_map]
    rfl
  have hcontract : (room.find deviceId).map JoinRequest.role =
      (room.roster.find? fun entry => entry.1 = deviceId).map Prod.snd := by
    rw [TrackerRoom.find, TrackerRoom.roster, List.find?_map, Option.map_map]
    rfl
  rw [htracker, hcontract, h.roster]

theorem activeRole_eq (h : Refines roomId topology db room) (deviceId : DeviceId) :
    db.activeRole roomId deviceId = (room.find deviceId).map JoinRequest.role := by
  rw [← h.findMember_role, Tables.activeRole]
  cases hfind : db.findMember roomId deviceId with
  | none => rfl
  | some member =>
    rw [Tables.findMember] at hfind
    have hroom : member.roomId = roomId := (by simpa using List.find?_some hfind : _ ∧ _).1
    rw [Option.filter_some_pos]
    exact decide_eq_true (h.active member (List.mem_of_find?_eq_some hfind) hroom)

/-- The same devices are members. -/
theorem findMember_eq_none (h : Refines roomId topology db room) (deviceId : DeviceId) :
    db.findMember roomId deviceId = none ↔ room.find deviceId = none := by
  have hrole := h.findMember_role deviceId
  cases hdb : db.findMember roomId deviceId <;> cases hroom : room.find deviceId <;>
    simp_all

end Refines

namespace TrackerRoom

variable {room room' : TrackerRoom}

theorem hasMember_eq (room : TrackerRoom) (deviceId : DeviceId) :
    room.hasMember deviceId = (room.find deviceId).isSome := by
  rw [hasMember, find, List.isSome_find?]

/-- A device that may join. -/
structure Admits (room : TrackerRoom) (deviceId : DeviceId) (role : Role) : Prop where
  valid : roleValid room.topology (some role) = true
  places : room.topology = .bidirectional → room.members.length < 2
  source : room.topology = .oneWay → role = .source →
    ∀ member ∈ room.members, member.role ≠ .source
  new : room.find deviceId = none

/-- **`Join`** admits exactly the devices that may be.  The two sides test different things in a
different order; in this form they can be compared. -/
theorem join_eq_ok {applicant : Applicant} :
    room.join (applicant.request room.taskId) = .ok room' ↔
      room.Admits applicant.auth.deviceId applicant.role ∧
        room' = { room with members := room.members ++ [applicant.request room.taskId] } := by
  have hproper : ¬ ((applicant.request room.taskId).taskId ≠ room.taskId ∨
      (applicant.request room.taskId).syncKey = [] ∨ (applicant.request room.taskId).deviceId = [] ∨
      (applicant.request room.taskId).deviceFingerprint = [] ∨
      (applicant.request room.taskId).authorizationToken = []) := by
    rintro (h | h | h | h | h)
    · exact h rfl
    · exact applicant.syncKey_ne h
    · exact applicant.deviceId_ne h
    · exact applicant.fingerprint_ne h
    · exact applicant.authorizationToken_ne h
  have hany : (room.members.any fun member => member.role = .source) = true ↔
      ¬ ∀ member ∈ room.members, member.role ≠ .source := by
    rw [List.any_eq_true]
    simp only [decide_eq_true_eq, not_forall, not_not, exists_prop]
  have hid : (applicant.request room.taskId).deviceId = applicant.auth.deviceId := rfl
  have hrole : (applicant.request room.taskId).role = applicant.role := rfl
  rw [join, if_neg hproper, hasMember_eq, hid, hrole]
  -- in the order of the checks: the device is new, the role fits the room, there is a place
  cases hfind : room.find applicant.auth.deviceId with
  | some member =>
    refine iff_of_false nofun fun h => ?_
    rw [h.1.new] at hfind
    cases hfind
  | none =>
    simp only [Option.isSome_none, Bool.false_eq_true, if_false]
    cases htopology : room.topology with
    | oneWay =>
      simp only
      by_cases hvalid : applicant.role ≠ .source ∧ applicant.role ≠ .target
      · rw [if_pos hvalid]
        refine iff_of_false nofun fun h => ?_
        have := h.1.valid
        rw [htopology] at this
        cases hcase : applicant.role <;> simp_all [roleValid]
      rw [if_neg hvalid]
      by_cases hsource : applicant.role = .source ∧
          (room.members.any fun member => member.role = .source) = true
      · rw [if_pos hsource]
        exact iff_of_false nofun fun h => hany.mp hsource.2 (h.1.source htopology hsource.1)
      · rw [if_neg hsource, Except.ok.injEq, eq_comm]
        refine (and_iff_right ⟨?_, fun h => ?_, fun _ hs => ?_, hfind⟩).symm
        · rw [htopology]
          cases hcase : applicant.role <;> simp_all [roleValid]
        · rw [htopology] at h
          cases h
        · exact not_not.mp fun hnot => hsource ⟨hs, hany.mpr hnot⟩
    | bidirectional =>
      simp only
      by_cases hvalid : applicant.role ≠ .peer
      · rw [if_pos hvalid]
        refine iff_of_false nofun fun h => ?_
        have := h.1.valid
        rw [htopology] at this
        cases hcase : applicant.role <;> simp_all [roleValid]
      rw [if_neg hvalid]
      by_cases hfull : room.members.length ≥ 2
      · rw [if_pos hfull]
        exact iff_of_false nofun fun h => absurd (h.1.places htopology) (not_lt.mpr hfull)
      · rw [if_neg hfull, Except.ok.injEq, eq_comm]
        refine (and_iff_right ⟨?_, fun _ => not_le.mp hfull, fun h => ?_, hfind⟩).symm
        · rw [htopology, not_not.mp hvalid]
          rfl
        · rw [htopology] at h
          cases h

end TrackerRoom

/-! ## Each event

An event of the contract is a request to the tracker.  Either both refuse, and stay in relation, or
both accept, and are in relation afterwards. -/

namespace Refines

variable {roomId : Bytes} {topology : Topology} {db : Tables} {room : TrackerRoom}

/-- Both sides admit the same devices. -/
theorem admits_iff (h : Refines roomId topology db room) (deviceId : DeviceId) (role : Role) :
    db.Admits roomId topology deviceId role ↔ room.Admits deviceId role := by
  have hroles : (∀ member ∈ db.activeMembers roomId, member.role ≠ .source) ↔
      ∀ member ∈ room.members, member.role ≠ .source := by
    have htracker : (∀ member ∈ db.activeMembers roomId, member.role ≠ .source) ↔
        ∀ entry ∈ db.roster roomId, entry.2 ≠ .source := by
      rw [h.activeMembers_eq, Tables.roster, List.forall_mem_map]
    have hcontract : (∀ member ∈ room.members, member.role ≠ .source) ↔
        ∀ entry ∈ room.roster, entry.2 ≠ .source := by
      rw [TrackerRoom.roster, List.forall_mem_map]
    rw [htracker, hcontract, h.roster]
  constructor
  · intro hadmits
    refine ⟨?_, fun ht => ?_, fun ht hr => ?_, (h.findMember_eq_none deviceId).mp hadmits.new⟩
    · rw [h.sameTopology]
      exact hadmits.valid
    · rw [← h.memberCount_eq]
      exact hadmits.room (h.sameTopology ▸ ht)
    · exact hroles.mp (hadmits.source (h.sameTopology ▸ ht) hr)
  · intro hadmits
    refine ⟨?_, fun ht => ?_, fun ht hr => ?_, (h.findMember_eq_none deviceId).mpr hadmits.new⟩
    · rw [← h.sameTopology]
      exact hadmits.valid
    · rw [h.memberCount_eq]
      exact hadmits.places (h.sameTopology.trans ht)
    · exact hroles.mpr (hadmits.source (h.sameTopology.trans ht) hr)

/-- A device that both sides have admitted. -/
theorem welcome (h : Refines roomId topology db room) {applicant : Applicant} (now : Millis)
    (hadmits : room.Admits applicant.auth.deviceId applicant.role) :
    Refines roomId topology
      { db with
        members := db.members ++ [Tables.newMember roomId applicant.auth applicant.role now] }
      { room with members := room.members ++ [applicant.request room.taskId] } where
  numbered := ⟨h.numbered.sorted, h.numbered.le_seq⟩
  found := h.found
  sameTopology := h.sameTopology
  roster := by
    have hroster := h.roster
    simp only [Tables.roster, TrackerRoom.roster] at hroster ⊢
    rw [List.filter_append, List.map_append, hroster, List.map_append]
    simp [Tables.newMember, Applicant.request]
  active member hmember hroom := by
    rcases List.mem_append.mp hmember with hmember | hmember
    · exact h.active member hmember hroom
    · rw [List.mem_singleton.mp hmember]
      rfl
  peers ht member hmember := by
    rcases List.mem_append.mp hmember with hmember | hmember
    · exact h.peers ht member hmember
    · rw [List.mem_singleton.mp hmember]
      have hvalid := hadmits.valid
      rw [h.sameTopology, ht] at hvalid
      change applicant.role = .peer
      cases hrole : applicant.role <;> simp_all [roleValid]
  inboxes := h.inboxes

end Refines

/-- A message that may be relayed between devices of the given roles. -/
structure Relays (topology : Topology) (sender recipient : Option Role) (message : RelayMessage) :
    Prop where
  other : message.recipientDeviceId ≠ message.senderDeviceId
  nonempty : message.payload ≠ []
  short : message.payload.length ≤ maxSignalPayload
  allowed : ∃ a ∈ sender, ∃ b ∈ recipient, relayAllowed topology a b message.kind = true

/-- The tests of a one-way room, as one. -/
theorem relayAllowed_oneWay (sender recipient : Role) (kind : MessageKind) :
    relayAllowed .oneWay sender recipient kind = true ↔
      ¬ (¬ (sender = .source ∧ recipient = .target) ∧ ¬ (sender = .target ∧ recipient = .source)) ∧
        ¬ ((sender = .target ∧ recipient = .source) ∧ kind ≠ .answer ∧ kind ≠ .iceCandidate) ∧
        ¬ ((sender = .source ∧ recipient = .target) ∧ kind = .answer) := by
  cases sender <;> cases recipient <;> cases kind <;> decide

/-- **`Forward`** takes exactly the messages that may be relayed.  In this form it can be compared
with the handler of the tracker. -/
theorem TrackerRoom.forward_eq_ok {room room' : TrackerRoom} {message : RelayMessage}
    (hpeers : room.topology = .bidirectional → ∀ member ∈ room.members, member.role = .peer) :
    room.forward message = .ok room' ↔
      Relays room.topology ((room.find message.senderDeviceId).map JoinRequest.role)
          ((room.find message.recipientDeviceId).map JoinRequest.role) message ∧
        room' = room.push message := by
  unfold forward
  cases hsender : room.find message.senderDeviceId with
  | none =>
    refine iff_of_false nofun fun h => ?_
    obtain ⟨a, ha, -⟩ := h.1.allowed
    cases ha
  | some sender =>
    cases hrecipient : room.find message.recipientDeviceId with
    | none =>
      refine iff_of_false nofun fun h => ?_
      obtain ⟨a, -, b, hb, -⟩ := h.1.allowed
      cases hb
    | some recipient =>
      simp only
      by_cases hsame : message.senderDeviceId = message.recipientDeviceId
      · rw [if_pos hsame]
        exact iff_of_false nofun fun h => h.1.other hsame.symm
      rw [if_neg hsame]
      by_cases hpayload : message.payload = [] ∨ message.payload.length > maxSignalPayload
      · rw [if_pos hpayload]
        refine iff_of_false nofun fun h => ?_
        exact hpayload.elim h.1.nonempty (not_lt.mpr h.1.short)
      rw [if_neg hpayload]
      rw [not_or, not_lt] at hpayload
      have hrelays : ∀ t, Relays t (some sender.role) (some recipient.role) message ↔
          relayAllowed t sender.role recipient.role message.kind = true := by
        intro t
        constructor
        · rintro ⟨-, -, -, a, ⟨⟩, b, ⟨⟩, hallowed⟩
          exact hallowed
        · exact fun hallowed => ⟨Ne.symm hsame, hpayload.1, hpayload.2, _, rfl, _, rfl, hallowed⟩
      simp only [Option.map_some, hrelays]
      -- in a bidirectional room the roles allow everything; in a one-way room three tests remain
      cases htopology : room.topology with
      | oneWay =>
        simp only
        rw [relayAllowed_oneWay]
        split
        · rename_i hdirection
          exact iff_of_false nofun fun h => h.1.1 hdirection
        split
        · rename_i htarget
          exact iff_of_false nofun fun h => h.1.2.1 htarget
        split
        · rename_i hsource
          exact iff_of_false nofun fun h => h.1.2.2 hsource
        · rename_i hdirection htarget hsource
          rw [Except.ok.injEq, eq_comm]
          exact (and_iff_right ⟨hdirection, htarget, hsource⟩).symm
      | bidirectional =>
        simp only
        have hallowed : relayAllowed .bidirectional sender.role recipient.role message.kind =
          true := by
          rw [relayAllowed, hpeers htopology sender (List.mem_of_find?_eq_some hsender),
            hpeers htopology recipient (List.mem_of_find?_eq_some hrecipient)]
          rfl
        rw [Except.ok.injEq, eq_comm]
        exact (and_iff_right hallowed).symm

/-- The row of a message that is stored. -/
def newSignal (db : Tables) (roomId : Bytes) (message : RelayMessage) (now : Millis) : Signal :=
  ⟨db.signalSeq + 1, roomId, message.senderDeviceId, message.recipientDeviceId, message.kind,
    message.payload, message.candidateMid, message.candidateMlineIndex, now.1⟩

/-- **`send_signal`** takes exactly the messages that may be relayed.  In this form it can be
compared with the contract. -/
theorem Tables.sendSignal_relays {db db' : Tables} {auth : DeviceAuth} {roomId answer : Bytes}
    {message : RelayMessage} {now : Millis} {row : Room} (hroom : db.findRoom roomId = some row)
    (own : message.senderDeviceId = auth.deviceId) (hseq : db.signalSeq < maxSignalId) :
    db.sendSignal auth roomId (kindName message.kind) message.recipientDeviceId message.payload
        message.candidateMid (printInt message.candidateMlineIndex) now = .ok (answer, db') ↔
      Relays row.topology (db.activeRole roomId message.senderDeviceId)
          (db.activeRole roomId message.recipientDeviceId) message ∧
        answer = ascii "OK\n" ∧
        db' = { db with
          signals := db.signals ++ [newSignal db roomId message now]
          signalSeq := db.signalSeq + 1 } := by
  have hindex : parseInt 32 (printInt message.candidateMlineIndex) =
      some message.candidateMlineIndex := parseSigned_printInt true message.inRange
  unfold sendSignal
  rw [parseKind_kindName, hindex, hroom, ← own]
  simp only
  by_cases hpayload : message.payload = [] ∨ message.payload.length > maxSignalBytes ∨
      message.recipientDeviceId = message.senderDeviceId
  · rw [if_pos hpayload]
    refine iff_of_false nofun fun h => ?_
    rcases hpayload with hempty | hlong | hsame
    · exact h.1.nonempty hempty
    · exact absurd h.1.short (not_le.mpr hlong)
    · exact h.1.other hsame
  rw [if_neg hpayload]
  rw [not_or, not_or, not_lt] at hpayload
  -- sender and recipient must be active members before the topology is asked
  cases hsender : db.activeRole roomId message.senderDeviceId with
  | none =>
    refine iff_of_false nofun fun h => ?_
    obtain ⟨a, ha, -⟩ := h.1.allowed
    cases ha
  | some sender =>
    cases hrecipient : db.activeRole roomId message.recipientDeviceId with
    | none =>
      refine iff_of_false nofun fun h => ?_
      obtain ⟨a, -, b, hb, -⟩ := h.1.allowed
      cases hb
    | some recipient =>
      simp only
      by_cases hallowed : relayAllowed row.topology sender recipient message.kind = true
      · rw [hallowed, Bool.not_true, if_neg Bool.false_ne_true, if_neg (not_le.mpr hseq),
          Except.ok.injEq, Prod.mk.injEq, eq_comm, @eq_comm _ _ db']
        refine (and_iff_right ⟨hpayload.2.2, hpayload.1, hpayload.2.1, _, rfl, _, rfl,
          hallowed⟩).symm
      · rw [Bool.not_eq_true] at hallowed
        rw [hallowed, Bool.not_false, if_pos rfl]
        refine iff_of_false nofun fun h => ?_
        obtain ⟨a, ha, b, hb, hrelay⟩ := h.1.allowed
        cases ha
        cases hb
        rw [hallowed] at hrelay
        cases hrelay

namespace Refines

variable {roomId : Bytes} {topology : Topology} {db : Tables} {room : TrackerRoom}

/-- A message that both sides have taken. -/
theorem push (h : Refines roomId topology db room) (message : RelayMessage) (now : Millis) :
    Refines roomId topology
      { db with
        signals := db.signals ++ [newSignal db roomId message now]
        signalSeq := db.signalSeq + 1 }
      (room.push message) where
  numbered := h.numbered.append rfl
  found := h.found
  sameTopology := h.sameTopology
  roster := h.roster
  active := h.active
  peers := h.peers
  inboxes recipient := by
    have hold := h.inboxes recipient
    simp only [Tables.inbox] at hold ⊢
    rw [List.filter_append, List.map_append, hold, TrackerRoom.push]
    by_cases hto : message.recipientDeviceId = recipient
    · subst hto
      simp [newSignal, Signal.message, RelayMessage.message]
    · have hne : recipient ≠ message.recipientDeviceId := Ne.symm hto
      simp [newSignal, hto, Function.update_of_ne hne]

/-- An inbox that both sides have emptied. -/
theorem drained (h : Refines roomId topology db room) {auth : DeviceAuth} {rounds : Nat}
    (hrounds : (db.inbox roomId auth.deviceId).length ≤ maxDrainSignals * rounds) :
    Refines roomId topology (db.drainRounds auth roomId rounds).2
      { room with inboxes := Function.update room.inboxes auth.deviceId [] } := by
  obtain ⟨signals, hdb⟩ := Tables.drainRounds_signals auth roomId rounds db
  refine ⟨h.numbered.drainRounds auth roomId rounds, ?_, h.sameTopology, ?_, ?_, h.peers,
    fun recipient => ?_⟩
  · rw [hdb]
    exact h.found
  · rw [hdb]
    exact h.roster
  · rw [hdb]
    exact h.active
  · simp only
    by_cases hto : recipient = auth.deviceId
    · subst hto
      rw [h.numbered.inbox_drainRounds auth roomId rounds, List.drop_of_length_le hrounds,
        Function.update_self]
      rfl
    · rw [Tables.inbox_drainRounds_of_ne auth roomId rounds db hto, Function.update_of_ne hto]
      exact h.inboxes recipient

/-- Both sides accept the event. -/
theorem step_of_ok {s : Sides} {fresh : Fresh} {event : Event} {db' : Tables}
    {room' : TrackerRoom} (rows : List Signal) (messages : List RelayMessage)
    (htracker : trackerDo roomId topology fresh s.tracker event = .ok (rows, db'))
    (hcontract : contractDo s.contract event = .ok (messages, room'))
    (hsame : rows.map Signal.message = messages.map (RelayMessage.message roomId))
    (h : Refines roomId topology db' room') :
    s.Agree roomId topology fresh event ∧
      Refines roomId topology (s.step roomId topology fresh event).tracker
        (s.step roomId topology fresh event).contract := by
  rw [Sides.Agree, Sides.step, htracker, hcontract]
  exact ⟨congrArg some hsame, h⟩

/-- Both sides refuse it. -/
theorem step_of_error {s : Sides} {fresh : Fresh} {event : Event}
    (h : Refines roomId topology s.tracker s.contract)
    (htracker : ∀ r, trackerDo roomId topology fresh s.tracker event ≠ .ok r)
    (hcontract : ∀ r, contractDo s.contract event ≠ .ok r) :
    s.Agree roomId topology fresh event ∧
      Refines roomId topology (s.step roomId topology fresh event).tracker
        (s.step roomId topology fresh event).contract := by
  rw [Sides.Agree, Sides.step]
  cases hleft : trackerDo roomId topology fresh s.tracker event with
  | ok r => exact absurd hleft (htracker r)
  | error e =>
    cases hright : contractDo s.contract event with
    | ok r => exact absurd hright (hcontract r)
    | error e' => exact ⟨rfl, h⟩

/-- **One event**: both sides agree, and stay related. -/
theorem step {s : Sides} (h : Refines roomId topology s.tracker s.contract) (fresh : Fresh)
    (event : Event) (hproper : s.Proper roomId event) :
    s.Agree roomId topology fresh event ∧
      Refines roomId topology (s.step roomId topology fresh event).tracker
        (s.step roomId topology fresh event).contract := by
  cases event with
  | welcome applicant now =>
    by_cases hadmits : s.contract.Admits applicant.auth.deviceId applicant.role
    · have htracker : s.tracker.admitMember roomId topology applicant.auth (some applicant.role)
          now.1 = _ := Tables.admitMember_eq_ok.mpr
        ⟨applicant.role, rfl, (h.admits_iff applicant.auth.deviceId applicant.role).mpr
          hadmits, rfl⟩
      have hcontract := TrackerRoom.join_eq_ok.mpr ⟨hadmits, rfl⟩
      refine step_of_ok [] [] ?_ ?_ rfl (h.welcome now hadmits)
      · rw [trackerDo, htracker]
        rfl
      · rw [contractDo, hcontract]
        rfl
    -- neither side admits the applicant, so both of them refuse
    · refine h.step_of_error (fun r hr => hadmits ?_) fun r hr => hadmits ?_
      · obtain ⟨db', hadmit, -⟩ := Tables.ok_of_bind hr
        obtain ⟨role, hrole, hmay, -⟩ := Tables.admitMember_eq_ok.mp hadmit
        cases hrole
        exact (h.admits_iff _ _).mp hmay
      · rw [contractDo] at hr
        cases hjoin : s.contract.join (applicant.request s.contract.taskId) with
        | error e =>
          rw [hjoin] at hr
          cases hr
        | ok room' => exact (TrackerRoom.join_eq_ok.mp hjoin).1
  | forward auth message own now =>
    obtain ⟨hdeliverable, hseq⟩ := hproper
    obtain ⟨row, hrow, rfl⟩ := h.found
    have hpeers : s.contract.topology = .bidirectional →
        ∀ member ∈ s.contract.members, member.role = .peer := by
      rw [h.sameTopology]
      exact h.peers
    have hfields : fields (forwardBody roomId message) Endpoint.sendSignal.fieldCount = _ :=
      fields_forwardBody hdeliverable
    by_cases hrelays : Relays row.topology (s.tracker.activeRole roomId message.senderDeviceId)
        (s.tracker.activeRole roomId message.recipientDeviceId) message
    · have hsend : s.tracker.sendSignal auth roomId _ _ _ _ _ now = _ :=
        (Tables.sendSignal_relays hrow own hseq).mpr ⟨hrelays, rfl, rfl⟩
      have hforward : s.contract.forward message = .ok (s.contract.push message) := by
        refine (TrackerRoom.forward_eq_ok hpeers).mpr ⟨?_, rfl⟩
        rw [h.sameTopology, ← h.activeRole_eq, ← h.activeRole_eq]
        exact hrelays
      refine step_of_ok [] [] ?_ ?_ rfl (h.push message now)
      · rw [trackerDo, hfields]
        change (serve s.tracker .sendSignal auth _ now fresh >>= _) = _
        rw [serve, hsend]
        rfl
      · rw [contractDo, hforward]
        rfl
    · refine h.step_of_error (fun r hr => hrelays ?_) fun r hr => hrelays ?_
      · obtain ⟨values, hvalues, hr⟩ := Tables.ok_of_bind hr
        rw [hfields] at hvalues
        cases hvalues
        obtain ⟨⟨answer, db'⟩, hserve, -⟩ := Tables.ok_of_bind hr
        exact ((Tables.sendSignal_relays hrow own hseq).mp hserve).1
      · rw [contractDo] at hr
        cases hforward : s.contract.forward message with
        | error e =>
          rw [hforward] at hr
          cases hr
        | ok room' =>
          have hmay := ((TrackerRoom.forward_eq_ok hpeers).mp hforward).1
          rw [h.sameTopology, ← h.activeRole_eq, ← h.activeRole_eq] at hmay
          exact hmay
  | drain auth rounds =>
    obtain ⟨hmember, hrounds⟩ := hproper
    -- enough rounds empty the inbox, as the one drain of the contract does
    rw [h.activeRole_eq, Option.isSome_map, ← TrackerRoom.hasMember_eq] at hmember
    refine step_of_ok (s.tracker.drainRounds auth roomId rounds).1
      (s.contract.inboxes auth.deviceId)
      rfl ?_ ?_ (h.drained hrounds)
    · rw [contractDo, TrackerRoom.drainInbox, hmember]
      rfl
    · rw [h.numbered.drainRounds_eq auth roomId rounds, List.take_of_length_le hrounds]
      exact h.inboxes auth.deviceId

end Refines

/-! ## Sequences of events -/

/-- A room of the tracker that has just been inserted, into tables with other rooms, and the room of
the contract for its task. -/
structure Sides.Created (roomId : Bytes) (topology : Topology) (s : Sides) : Prop where
  numbered : s.tracker.Numbered
  found : ∃ row, s.tracker.findRoom roomId = some row ∧ row.topology = topology ∧
    TrackerRoom.new row.taskId topology = .ok s.contract
  noMembers : ∀ member ∈ s.tracker.members, member.roomId ≠ roomId
  noSignals : ∀ signal ∈ s.tracker.signals, signal.roomId ≠ roomId

theorem Sides.Created.refines {roomId : Bytes} {topology : Topology} {s : Sides}
    (h : s.Created roomId topology) : Refines roomId topology s.tracker s.contract := by
  obtain ⟨row, hrow, htopology, hnew⟩ := h.found
  rw [TrackerRoom.new] at hnew
  split at hnew
  · cases hnew
  rw [← Except.ok.inj hnew]
  refine ⟨h.numbered, ⟨row, hrow, htopology⟩, rfl, ?_, fun member hmember hroom => ?_, nofun,
    fun recipient => ?_⟩
  · rw [Tables.roster, List.filter_eq_nil_iff.mpr fun member hmember => by
      simpa using h.noMembers member hmember]
    rfl
  · exact absurd hroom (h.noMembers member hmember)
  · rw [Tables.inbox, List.filter_eq_nil_iff.mpr fun signal hsignal => by
      simpa using fun hroom => absurd hroom (h.noSignals signal hsignal)]
    rfl

/-- **The tracker refines the contract.**  For every room and every sequence of admissions, forwards
and drains in it, where the messages get through `fields`: the tracker accepts an event exactly when
the contract does, and after every event the signals stored for each device are the messages in its
inbox. -/
theorem tracker_refines_contract (roomId : Bytes) (topology : Topology) (fresh : Fresh) (s : Sides)
    (events : List Event) (hcreated : s.Created roomId topology)
    (hproper : Run.Along (Sides.step roomId topology fresh) (Sides.Proper roomId) s events) :
    Run.Along (Sides.step roomId topology fresh)
      (fun s event => s.Agree roomId topology fresh event ∧
        ∀ recipient,
          ((s.step roomId topology fresh event).tracker.inbox roomId recipient).map Signal.message =
            ((s.step roomId topology fresh event).contract.inboxes recipient).map
              (RelayMessage.message roomId)) s events := by
  refine Run.along_of_invariant (I := fun s => Refines roomId topology s.tracker s.contract)
    (fun s event hevent h => ?_) events s hproper hcreated.refines
  obtain ⟨hagree, hrefines⟩ := h.step fresh event hevent
  exact ⟨⟨hagree, hrefines.inboxes⟩, hrefines⟩

/-! ### Two peers -/

/-- A peer whose id is one digit, 32 times. -/
def samplePeer (digit : UInt8) : Applicant where
  auth := ⟨List.replicate 32 digit, ascii "key", List.replicate 64 digit⟩
  role := .peer
  syncKey := ascii "sync-key"
  authorizationToken := ascii "token"
  deviceId_ne := nofun
  fingerprint_ne := nofun
  syncKey_ne := by decide
  authorizationToken_ne := by decide

/-- An offer of the first peer to the second. -/
def sampleOffer (payload : Bytes) : RelayMessage :=
  ⟨.offer, List.replicate 32 48, List.replicate 32 49, payload, [], -1, by decide⟩

/-- A room for two peers, at the tracker and in the contract. -/
def sampleSides : Sides where
  tracker := { Tables.empty with
    rooms := [⟨ascii "room", ascii "task", .bidirectional, hex (List.replicate 32 0), 0⟩] }
  contract := ⟨ascii "task", .bidirectional, [], fun _ => []⟩

/-- Random values; none is drawn here. -/
def sampleFresh : Fresh :=
  ⟨ascii "room", ascii "code", List.replicate 32 0, ascii "token", by decide, by decide, by decide⟩

/-- Two peers are admitted, a third is not, and the first sends the second an offer. -/
def sampleEvents (payload : Bytes) : List Event :=
  [.welcome (samplePeer 48) ⟨0, by decide⟩, .welcome (samplePeer 49) ⟨0, by decide⟩,
    .welcome (samplePeer 50) ⟨0, by decide⟩,
    .forward (samplePeer 48).auth (sampleOffer payload) rfl ⟨0, by decide⟩]

theorem sampleSides_created : sampleSides.Created (ascii "room") .bidirectional :=
  ⟨⟨List.Pairwise.nil, nofun⟩, ⟨_, rfl, rfl, rfl⟩, nofun, nofun⟩

instance (roomId : Bytes) (message : RelayMessage) : Decidable (Deliverable roomId message) :=
  decidable_of_iff
    (validUtf8 roomId = true ∧ validUtf8 message.recipientDeviceId = true ∧
      validUtf8 message.payload = true ∧ validUtf8 message.candidateMid = true ∧
      (forwardBody roomId message).length ≤ maxBodyBytes)
    ⟨fun h => ⟨h.1, h.2.1, h.2.2.1, h.2.2.2.1, h.2.2.2.2⟩,
      fun h => ⟨h.room, h.recipient, h.payload, h.mid, h.short⟩⟩

instance (roomId : Bytes) (s : Sides) : ∀ event, Decidable (s.Proper roomId event)
  | .welcome _ _ => inferInstanceAs (Decidable True)
  | .forward _ message _ _ => inferInstanceAs
      (Decidable (Deliverable roomId message ∧ s.tracker.signalSeq < maxSignalId))
  | .drain auth rounds => inferInstanceAs
      (Decidable ((s.tracker.activeRole roomId auth.deviceId).isSome = true ∧
        (s.tracker.inbox roomId auth.deviceId).length ≤ maxDrainSignals * rounds))

instance (roomId : Bytes) (topology : Topology) (fresh : Fresh) (s : Sides) (event : Event) :
    Decidable (s.Agree roomId topology fresh event) :=
  inferInstanceAs (Decidable (_ = _))

/-- An offer in ASCII, and the drain that fetches it. -/
theorem tracker_refines_contract_offer :
    Run.Along (Sides.step (ascii "room") .bidirectional sampleFresh) (Sides.Proper (ascii "room"))
        sampleSides (sampleEvents (ascii "v=0") ++ [.drain (samplePeer 49).auth 1]) ∧
      Run.Along (Sides.step (ascii "room") .bidirectional sampleFresh)
        (fun s event => s.Agree (ascii "room") .bidirectional sampleFresh event ∧
          ∀ recipient, ((s.step (ascii "room") .bidirectional sampleFresh event).tracker.inbox
              (ascii "room") recipient).map Signal.message =
            ((s.step (ascii "room") .bidirectional sampleFresh event).contract.inboxes
              recipient).map
              (RelayMessage.message (ascii "room")))
        sampleSides (sampleEvents (ascii "v=0") ++ [.drain (samplePeer 49).auth 1]) :=
  ⟨by decide +kernel, tracker_refines_contract _ _ _ _ _ sampleSides_created (by decide +kernel)⟩

/-- **The contract takes a message that the tracker refuses**: a payload that is not UTF-8. -/
theorem contract_takes_more :
    ¬ Run.Along (Sides.step (ascii "room") .bidirectional sampleFresh)
      (Sides.Agree (ascii "room") .bidirectional sampleFresh) sampleSides
        (sampleEvents [0xFF]) := by
  decide +kernel

end Tracker

end VeritasSync
