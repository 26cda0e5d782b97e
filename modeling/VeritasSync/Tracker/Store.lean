import Mathlib
import VeritasSync.Common.Protocol
import VeritasSync.Tracker.Text

/-!
# The tables of the tracker

The SQLite database of the tracker and the sections of its request handlers that hold the lock on
it.  A section is one transaction, or one statement that writes after some that only read, so it
takes effect as a whole or not at all: its model returns `Except ApiError` of the answer and the new
tables.  The exception is the section of `authenticate`, whose `DELETE` stays when the `INSERT`
after it adds nothing.

Topologies, roles and kinds are texts in the tables and in the requests.  The handlers compare them
with the texts they know and store no others, so they are enumerations here; a text that is none of
the known ones is read as `none`.

The tables have the keys of the schema.  A row whose key is taken is not inserted; SQLite says so
and the handler makes an error of it, or ignores it, as the statement has it.  What is drawn at
random (room ids, codes, sessions) is an argument of the section that draws it, in a structure that
is called `Fresh`, and nothing is assumed about it.
-/

set_option autoImplicit false

namespace VeritasSync

namespace Tracker

/-- The status codes of an `ApiError`. -/
inductive Status where
  | badRequest
  | unauthorized
  | forbidden
  | conflict
  | internal
  deriving DecidableEq

/-- `ApiError`. -/
structure ApiError where
  status : Status
  message : String
  deriving DecidableEq

/-- `ApiError::bad`. -/
def bad (message : String) : ApiError := ⟨.badRequest, message⟩

/-- `ApiError::unauthorized`. -/
def unauthorized (message : String) : ApiError := ⟨.unauthorized, message⟩

/-- `ApiError::forbidden`. -/
def forbidden (message : String) : ApiError := ⟨.forbidden, message⟩

/-- `ApiError::conflict`. -/
def conflict (message : String) : ApiError := ⟨.conflict, message⟩

/-- `ApiError::internal`. -/
def internal (message : String) : ApiError := ⟨.internal, message⟩

/-! ## The words of the protocol -/

/-- The topology of a room. -/
inductive Topology where
  | oneWay
  | bidirectional
  deriving DecidableEq

/-- The kind of a signal. -/
inductive MessageKind where
  | offer
  | answer
  | iceCandidate
  | iceRestart
  deriving DecidableEq

/-- The text of a topology. -/
def Topology.text : Topology → Bytes
  | .oneWay => ascii "one_way"
  | .bidirectional => ascii "bidirectional"

/-- The topology with the given text. -/
def parseTopology (text : Bytes) : Option Topology :=
  if text = Topology.oneWay.text then some .oneWay
  else if text = Topology.bidirectional.text then some .bidirectional
  else none

/-- The text of a role: `RoleName`. -/
def roleName : Role → Bytes
  | .source => ascii "source"
  | .target => ascii "target"
  | .peer => ascii "peer"

/-- The role with the given text: `ParseRole`. -/
def parseRole (text : Bytes) : Option Role :=
  if text = roleName .source then some .source
  else if text = roleName .target then some .target
  else if text = roleName .peer then some .peer
  else none

/-- The text of a kind: `KindName`. -/
def kindName : MessageKind → Bytes
  | .offer => ascii "offer"
  | .answer => ascii "answer"
  | .iceCandidate => ascii "ice"
  | .iceRestart => ascii "ice_restart"

/-- The kind with the given text: `ParseKind`. -/
def parseKind (text : Bytes) : Option MessageKind :=
  if text = kindName .offer then some .offer
  else if text = kindName .answer then some .answer
  else if text = kindName .iceCandidate then some .iceCandidate
  else if text = kindName .iceRestart then some .iceRestart
  else none

theorem parseRole_roleName (role : Role) : parseRole (roleName role) = some role := by
  cases role <;> decide

theorem parseKind_kindName (kind : MessageKind) : parseKind (kindName kind) = some kind := by
  cases kind <;> decide

/-! ## Time

Milliseconds since the epoch, as an `i64` that is not negative. -/

/-- What `now_ms` returns: an `i64` that is not negative. -/
abbrev Millis := { t : Nat // t < 2 ^ 63 }

instance maxEqOrNat : Std.MaxEqOr Nat := inferInstance

/-- Arithmetic on `i64` in a release build. -/
def wrap64 (i : Int) : Int := i.bmod (2 ^ 64)

/-- `INVITATION_TTL_MS`. -/
def invitationTtlMs : Int := 10 * 60 * 1000

/-- `SESSION_TTL_MS`. -/
def sessionTtlMs : Int := 15 * 60 * 1000

/-- `SIGNATURE_SKEW_SECONDS`. -/
def signatureSkewSeconds : Int := 5 * 60

/-- `MAX_SIGNAL_BYTES`. -/
def maxSignalBytes : Nat := 64 * 1024

/-- `MAX_DRAIN_SIGNALS`. -/
def maxDrainSignals : Nat := 256

/-- The time some milliseconds after a reading of the clock. -/
def expiry (now : Millis) (ttl : Int) : Int := wrap64 (now.1 + ttl)

/-! ## Tables

Rows in the order of their insertion.  Where the order matters, in the relay, the statement orders
by id, and ids are handed out in order. -/

/-- A row of `rooms`. -/
structure Room where
  roomId : Bytes
  taskId : Bytes
  topology : Topology
  authorizationDigest : Bytes
  createdAtMs : Int
  deriving DecidableEq

/-- A row of `members`. -/
structure MemberRow where
  roomId : Bytes
  deviceId : DeviceId
  publicKey : Bytes
  fingerprint : Bytes
  role : Role
  joinedAtMs : Int
  revoked : Bool
  deriving DecidableEq

/-- A row of `invitations`. -/
structure Invitation where
  code : Bytes
  roomId : Bytes
  invitedRole : Role
  expiresAtMs : Int
  redeemedBy : Option DeviceId
  deriving DecidableEq

/-- A row of `sessions`. -/
structure Session where
  token : Bytes
  roomId : Bytes
  deviceId : DeviceId
  expiresAtMs : Int
  deriving DecidableEq

/-- A row of `signals`. -/
structure Signal where
  signalId : Nat
  roomId : Bytes
  sender : DeviceId
  recipient : DeviceId
  kind : MessageKind
  payload : Bytes
  candidateMid : Bytes
  candidateMlineIndex : Int
  createdAtMs : Int
  deriving DecidableEq

/-- A row of `request_nonces`. -/
structure RequestNonce where
  deviceId : DeviceId
  nonce : Bytes
  expiresAtMs : Int
  deriving DecidableEq

/-- The tables.  `signalSeq` is the row of `sqlite_sequence` for the `AUTOINCREMENT` key of
`signals`. -/
structure Tables where
  rooms : List Room
  members : List MemberRow
  invitations : List Invitation
  sessions : List Session
  signals : List Signal
  signalSeq : Nat
  nonces : List RequestNonce
  deriving DecidableEq

/-- `DeviceAuth`. -/
structure DeviceAuth where
  deviceId : DeviceId
  publicKey : Bytes
  fingerprint : Bytes
  deriving DecidableEq

/-- The random values that a handler draws: `random_token(16)`, `invitation_code()`,
`random_bytes(32)` for the digest and `random_token(32)`. -/
structure Fresh where
  roomId : Bytes
  code : Bytes
  digest : Bytes
  token : Bytes
  roomId_ne : roomId ≠ []
  token_ne : token ≠ []
  digest_length : digest.length = 32

/-- A digit of `hex`. -/
def lowerDigit (n : Nat) : UInt8 := if n < 10 then UInt8.ofNat (48 + n) else UInt8.ofNat (87 + n)

/-- `hex`. -/
def hex (bytes : Bytes) : Bytes :=
  bytes.flatMap fun c => [lowerDigit (c.toNat / 16), lowerDigit (c.toNat % 16)]

namespace Tables

/-- The tables after `initialize_database` of a new file. -/
def empty : Tables := ⟨[], [], [], [], [], 0, []⟩

/-! ## Membership -/

/-- The row of a room. -/
def findRoom (db : Tables) (roomId : Bytes) : Option Room :=
  db.rooms.find? fun room => room.roomId = roomId

/-- The row of a member. -/
def findMember (db : Tables) (roomId : Bytes) (deviceId : DeviceId) : Option MemberRow :=
  db.members.find? fun member => member.roomId = roomId ∧ member.deviceId = deviceId

/-- The members of a room that are not revoked. -/
def activeMembers (db : Tables) (roomId : Bytes) : List MemberRow :=
  db.members.filter fun member => member.roomId = roomId ∧ member.revoked = false

/-- The role of an active member. -/
def activeRole (db : Tables) (roomId : Bytes) (deviceId : DeviceId) : Option Role :=
  ((db.findMember roomId deviceId).filter fun member => member.revoked = false).map MemberRow.role

end Tables

/-- `role_valid`. -/
def roleValid : Topology → Option Role → Bool
  | .oneWay, some .source => true
  | .oneWay, some .target => true
  | .bidirectional, some .peer => true
  | _, _ => false

namespace Tables

/-- `member_count`. -/
def memberCount (db : Tables) (roomId : Bytes) : Nat := (db.activeMembers roomId).length

/-- `admit_member`. -/
def admitMember (db : Tables) (roomId : Bytes) (topology : Topology) (auth : DeviceAuth)
    (role : Option Role) (joinedAtMs : Int) : Except ApiError Tables :=
  match role with
  | none => .error (forbidden "role is incompatible with room topology")
  | some known =>
    if !roleValid topology role then
      .error (forbidden "role is incompatible with room topology")
    else if topology = .bidirectional ∧ db.memberCount roomId ≥ 2 then
      .error (conflict "bidirectional room already has two peers")
    else if topology = .oneWay ∧ known = .source ∧
        ((db.activeMembers roomId).any fun member => member.role = .source) then
      .error (conflict "one-way room already has a source")
    else if (db.findMember roomId auth.deviceId).isSome then
      .error (conflict ("device cannot join room: UNIQUE constraint failed: " ++
        "members.room_id, members.device_id"))
    else
      .ok { db with
        members := db.members ++
          [⟨roomId, auth.deviceId, auth.publicKey, auth.fingerprint, known, joinedAtMs, false⟩] }

/-- `create_session`: the token and when it expires. -/
def createSession (db : Tables) (roomId : Bytes) (deviceId : DeviceId) (now : Millis)
    (fresh : Fresh) : Except ApiError Tables :=
  if db.sessions.any fun session => session.token = fresh.token then
    .error (internal "UNIQUE constraint failed: sessions.token")
  else
    .ok { db with
      sessions := db.sessions ++ [⟨fresh.token, roomId, deviceId, expiry now sessionTtlMs⟩] }

/-- `list_members`: `ORDER BY device_id`. -/
def listMembers (db : Tables) (roomId : Bytes) : List MemberRow :=
  (db.activeMembers roomId).insertionSort fun a b => a.deviceId ≤ b.deviceId

end Tables

/-- The line of one member in `enrollment_response`. -/
def memberLine (member : MemberRow) : Bytes :=
  ascii "MEMBER\t" ++ encodeField member.deviceId ++ [tab] ++ encodeField member.fingerprint ++
    [tab] ++ roleName member.role ++ [newline]

/-- `enrollment_response`. -/
def enrollmentResponse (roomId digest token : Bytes) (expiresAtMs : Int)
    (members : List MemberRow) : Bytes :=
  ascii "OK\t" ++ encodeField roomId ++ [tab] ++ encodeField digest ++ [tab] ++
    encodeField token ++ [tab] ++ printInt expiresAtMs ++ ascii "\tMEMBERS\n" ++
    members.flatMap memberLine ++ ascii "END\n"

/-- The first line of the answer to an invitation. -/
def inviteLine (code : Bytes) : Bytes := ascii "INVITE\t" ++ encodeField code ++ [newline]

namespace Tables

/-- `INSERT INTO invitations`. -/
def insertInvitation (db : Tables) (roomId : Bytes) (invitedRole : Role) (now : Millis)
    (code : Bytes) : Except ApiError Tables :=
  if db.invitations.any fun invitation => invitation.code = code then
    .error (internal "UNIQUE constraint failed: invitations.code")
  else
    .ok { db with
      invitations := db.invitations ++ [⟨code, roomId, invitedRole,
        expiry now invitationTtlMs, none⟩] }

/-- The end of `create_room`, `redeem_invitation` and `join_room`: a session and the answer. -/
def enroll (db : Tables) (room : Room) (auth : DeviceAuth) (now : Millis) (fresh : Fresh) :
    Except ApiError (Bytes × Tables) := do
  let db ← db.createSession room.roomId auth.deviceId now fresh
  pure (enrollmentResponse room.roomId room.authorizationDigest fresh.token
    (expiry now sessionTtlMs) (db.listMembers room.roomId), db)

/-- The roles that `create_room` admits. -/
def validRoles (topology : Topology) (localRole invitedRole : Option Role) : Bool :=
  roleValid topology localRole && roleValid topology invitedRole &&
    !(topology = .oneWay && (localRole ≠ some .source || invitedRole ≠ some .target))

/-- `create_room`, after `fields`. -/
def createRoom (db : Tables) (auth : DeviceAuth) (taskId topology localRole invitedRole : Bytes)
    (now : Millis) (fresh : Fresh) : Except ApiError (Bytes × Tables) :=
  match parseTopology topology, parseRole invitedRole with
  | some topology, some invited =>
    if taskId = [] ∨ ¬ validRoles topology (parseRole localRole) (some invited) then
      .error (bad "room topology and roles are invalid")
    else if (db.findRoom fresh.roomId).isSome then
      .error (internal "UNIQUE constraint failed: rooms.room_id")
    else do
      let room : Room := ⟨fresh.roomId, taskId, topology, hex fresh.digest, now.1⟩
      let db := { db with rooms := db.rooms ++ [room] }
      let db ← db.admitMember fresh.roomId topology auth (parseRole localRole) now.1
      let db ← db.insertInvitation fresh.roomId invited now fresh.code
      let (answer, db) ← db.enroll room auth now fresh
      pure (inviteLine fresh.code ++ answer, db)
  | _, _ => .error (bad "room topology and roles are invalid")

/-- An invitation that the topology of the room allows its creator to make. -/
def invitationAllowed : Topology → Role → Option Role → Bool
  | .oneWay, .source, some .target => true
  | .bidirectional, .peer, some .peer => true
  | _, _, _ => false

/-- `create_invitation`, after the session is authorized. -/
def createInvitation (db : Tables) (auth : DeviceAuth) (roomId invitedRole : Bytes) (now : Millis)
    (fresh : Fresh) : Except ApiError (Bytes × Tables) :=
  match db.findRoom roomId with
  | none => .error (bad "room does not exist")
  | some room =>
    match db.activeRole roomId auth.deviceId with
    | none => .error (forbidden "invitation creator is not an active room member")
    | some creatorRole =>
      match parseRole invitedRole with
      | none => .error (forbidden "invitation violates room topology")
      | some invited =>
        if !invitationAllowed room.topology creatorRole (some invited) then
          .error (forbidden "invitation violates room topology")
        else do
          let db ← db.insertInvitation roomId invited now fresh.code
          pure (inviteLine fresh.code, db)

/-- The row of an invitation. -/
def findInvitation (db : Tables) (code : Bytes) : Option Invitation :=
  db.invitations.find? fun invitation => invitation.code = code

/-- `UPDATE invitations SET redeemed_by`. -/
def setRedeemed (db : Tables) (code : Bytes) (deviceId : DeviceId) : Tables :=
  { db with
    invitations := db.invitations.map fun invitation =>
      if invitation.code = code then { invitation with redeemedBy := some deviceId }
      else invitation }

/-- `redeem_invitation`, after `fields`. -/
def redeemInvitation (db : Tables) (auth : DeviceAuth) (code taskId requestedRole : Bytes)
    (now : Millis) (fresh : Fresh) : Except ApiError (Bytes × Tables) :=
  match db.findInvitation code with
  | none => .error (bad "invitation does not exist")
  | some invitation =>
    if invitation.expiresAtMs < now.1 ∨ invitation.redeemedBy.isSome then
      .error (forbidden "invitation has expired or was redeemed")
    else if parseRole requestedRole ≠ some invitation.invitedRole then
      .error (forbidden "invitation role does not match")
    else
      match db.findRoom invitation.roomId with
      | none => .error (internal "Query returned no rows")
      | some room =>
        if room.taskId ≠ taskId then .error (forbidden "invitation task does not match")
        else do
          let db ← db.admitMember room.roomId room.topology auth (parseRole requestedRole) now.1
          (db.setRedeemed code auth.deviceId).enroll room auth now fresh

/-- `join_room`, after `fields`. -/
def joinRoom (db : Tables) (auth : DeviceAuth) (roomId taskId role : Bytes) (now : Millis)
    (fresh : Fresh) : Except ApiError (Bytes × Tables) :=
  match db.findRoom roomId with
  | none => .error (bad "room does not exist")
  | some room =>
    if room.taskId ≠ taskId then .error (forbidden "room task does not match")
    else
      match db.findMember roomId auth.deviceId with
      | none => .error (forbidden "device is not a room member")
      | some member =>
        if member.publicKey ≠ auth.publicKey ∨ some member.role ≠ parseRole role ∨
          member.revoked then
          .error (forbidden "room membership does not match device identity")
        else db.enroll room auth now fresh

/-! ### What the handlers have done when they answer

One lemma for each handler: what must have been the case for it to succeed, and the tables it
leaves.  The proofs about runs use these and do not look at the handlers again. -/

variable {db db' : Tables} {auth : DeviceAuth} {now : Millis} {fresh : Fresh} {answer : Bytes}

/-- The two halves of a section that succeeds. -/
theorem ok_of_bind {α β : Type} {x : Except ApiError α} {k : α → Except ApiError β} {b : β}
    (h : (x >>= k) = .ok b) : ∃ a, x = .ok a ∧ k a = .ok b := by
  cases x with
  | error e => cases h
  | ok a => exact ⟨a, rfl, h⟩

theorem findRoom_eq_some {roomId : Bytes} {room : Room} (h : db.findRoom roomId = some room) :
    room ∈ db.rooms ∧ room.roomId = roomId := by
  rw [findRoom] at h
  exact ⟨List.mem_of_find?_eq_some h, by simpa using List.find?_some h⟩

theorem findInvitation_eq_some {code : Bytes} {invitation : Invitation}
    (h : db.findInvitation code = some invitation) :
    invitation ∈ db.invitations ∧ invitation.code = code := by
  rw [findInvitation] at h
  exact ⟨List.mem_of_find?_eq_some h, by simpa using List.find?_some h⟩

/-- The row of a new member. -/
def newMember (roomId : Bytes) (auth : DeviceAuth) (role : Role) (now : Millis) : MemberRow :=
  ⟨roomId, auth.deviceId, auth.publicKey, auth.fingerprint, role, now.1, false⟩

/-- A device that may be admitted. -/
structure Admits (db : Tables) (roomId : Bytes) (topology : Topology) (deviceId : DeviceId)
    (role : Role) : Prop where
  valid : roleValid topology (some role) = true
  room : topology = .bidirectional → db.memberCount roomId < 2
  source : topology = .oneWay → role = .source →
    ∀ member ∈ db.activeMembers roomId, member.role ≠ .source
  new : db.findMember roomId deviceId = none

/-- **`admit_member`** admits exactly the devices that may be.  Both ways into a room go through
it. -/
theorem admitMember_eq_ok {roomId : Bytes} {topology : Topology} {role : Option Role} :
    db.admitMember roomId topology auth role now.1 = .ok db' ↔
      ∃ known, role = some known ∧ db.Admits roomId topology auth.deviceId known ∧
        db' = { db with members := db.members ++ [newMember roomId auth known now] } := by
  constructor
  · intro h
    unfold admitMember at h
    split at h
    · cases h
    rename_i known
    split at h
    · cases h
    rename_i hvalid
    split at h
    · cases h
    rename_i hroom
    split at h
    · cases h
    rename_i hsource
    split at h
    · cases h
    rename_i hnew
    cases h
    refine ⟨known, rfl, ⟨by simpa using hvalid, fun ht => ?_,
      fun ht hr member hmember heq => ?_, ?_⟩,
      rfl⟩
    · exact not_le.mp fun hle => hroom ⟨ht, hle⟩
    · exact hsource ⟨ht, hr, List.any_eq_true.mpr ⟨member, hmember, decide_eq_true heq⟩⟩
    · exact Option.not_isSome_iff_eq_none.mp hnew
  · rintro ⟨known, rfl, hadmits, rfl⟩
    have hroom : ¬ (topology = .bidirectional ∧ db.memberCount roomId ≥ 2) := fun h =>
      absurd (hadmits.room h.1) (not_lt.mpr h.2)
    have hsource : ¬ (topology = .oneWay ∧ known = .source ∧
        ((db.activeMembers roomId).any fun member => member.role = .source) = true) := by
      rintro ⟨ht, hr, hany⟩
      obtain ⟨member, hmember, hrole⟩ := List.any_eq_true.mp hany
      exact hadmits.source ht hr member hmember (of_decide_eq_true hrole)
    have hnew : ¬ (db.findMember roomId auth.deviceId).isSome = true := by
      rw [hadmits.new]
      nofun
    simp only [admitMember, hadmits.valid, Bool.not_true, Bool.false_eq_true, if_false,
      if_neg hroom,
      if_neg hsource, if_neg hnew]
    rfl

/-- What `createSession` adds. -/
theorem createSession_eq_ok {roomId : Bytes} {deviceId : DeviceId}
    (h : db.createSession roomId deviceId now fresh = .ok db') :
    db' = { db with
      sessions := db.sessions ++ [⟨fresh.token, roomId, deviceId, expiry now sessionTtlMs⟩] } := by
  rw [createSession] at h
  split at h
  · cases h
  · cases h
    rfl

/-- What `insertInvitation` adds. -/
theorem insertInvitation_eq_ok {roomId code : Bytes} {role : Role}
    (h : db.insertInvitation roomId role now code = .ok db') :
    (∀ invitation ∈ db.invitations, invitation.code ≠ code) ∧
      db' = { db with
        invitations := db.invitations ++ [⟨code, roomId, role, expiry now invitationTtlMs, none⟩]
          } := by
  rw [insertInvitation] at h
  split at h
  · cases h
  · rename_i hany
    cases h
    refine ⟨fun invitation hmem heq => hany ?_, rfl⟩
    exact List.any_eq_true.mpr ⟨invitation, hmem, decide_eq_true heq⟩

/-- What the end of an enrolment adds. -/
theorem enroll_eq_ok {room : Room} (h : db.enroll room auth now fresh = .ok (answer, db')) :
    db' = { db with
        sessions := db.sessions ++
          [⟨fresh.token, room.roomId, auth.deviceId, expiry now sessionTtlMs⟩] } ∧
      answer = enrollmentResponse room.roomId room.authorizationDigest fresh.token
        (expiry now sessionTtlMs) (db.listMembers room.roomId) := by
  obtain ⟨db₁, hsession, h⟩ := ok_of_bind h
  obtain rfl := createSession_eq_ok hsession
  cases h
  exact ⟨rfl, rfl⟩

/-- What `create_room` has done. -/
theorem createRoom_eq_ok {taskId topologyText localText invitedText : Bytes}
    (h : db.createRoom auth taskId topologyText localText invitedText now fresh =
      .ok (answer, db')) :
    ∃ topology localRole invited, parseTopology topologyText = some topology ∧
      parseRole localText = some localRole ∧ parseRole invitedText = some invited ∧
      validRoles topology (some localRole) (some invited) = true ∧
      db.findRoom fresh.roomId = none ∧
      (∀ invitation ∈ db.invitations, invitation.code ≠ fresh.code) ∧
      ∃ room : Room, room = ⟨fresh.roomId, taskId, topology, hex fresh.digest, now.1⟩ ∧
        { db with rooms := db.rooms ++ [room] }.Admits fresh.roomId topology auth.deviceId
          localRole ∧
        db' = { db with
          rooms := db.rooms ++ [room]
          members := db.members ++ [newMember fresh.roomId auth localRole now]
          invitations := db.invitations ++
            [⟨fresh.code, fresh.roomId, invited, expiry now invitationTtlMs, none⟩]
          sessions := db.sessions ++
            [⟨fresh.token, fresh.roomId, auth.deviceId, expiry now sessionTtlMs⟩] } ∧
        answer = inviteLine fresh.code ++ enrollmentResponse fresh.roomId (hex fresh.digest)
          fresh.token (expiry now sessionTtlMs) (db'.listMembers fresh.roomId) := by
  rw [createRoom] at h
  split at h
  · rename_i topology invited htopology hinvited
    split at h
    · cases h
    rename_i hvalid
    split at h
    · cases h
    rename_i hroom
    obtain ⟨db₁, hadmit, h⟩ := ok_of_bind h
    obtain ⟨localRole, hlocal, hadmits, rfl⟩ := admitMember_eq_ok.mp hadmit
    obtain ⟨db₂, hinvitation, h⟩ := ok_of_bind h
    obtain ⟨hcode, rfl⟩ := insertInvitation_eq_ok hinvitation
    obtain ⟨⟨answer', db₃⟩, henroll, h⟩ := ok_of_bind h
    obtain ⟨rfl, rfl⟩ := enroll_eq_ok henroll
    cases h
    rw [hlocal] at hvalid
    exact ⟨topology, localRole, invited, htopology, hlocal, hinvited,
      not_not.mp fun hnot => hvalid (.inr hnot), Option.not_isSome_iff_eq_none.mp hroom,
        hcode, _, rfl,
      hadmits, rfl, rfl⟩
  · cases h

/-- What `create_invitation` has done. -/
theorem createInvitation_eq_ok {roomId invitedText : Bytes}
    (h : db.createInvitation auth roomId invitedText now fresh = .ok (answer, db')) :
    ∃ room creatorRole invited, db.findRoom roomId = some room ∧
      db.activeRole roomId auth.deviceId = some creatorRole ∧
      invitationAllowed room.topology creatorRole (some invited) = true ∧
      (∀ invitation ∈ db.invitations, invitation.code ≠ fresh.code) ∧
      db' = { db with
        invitations := db.invitations ++
          [⟨fresh.code, roomId, invited, expiry now invitationTtlMs, none⟩] } := by
  rw [createInvitation] at h
  split at h
  · cases h
  rename_i room hroom
  split at h
  · cases h
  rename_i creatorRole hcreator
  split at h
  · cases h
  rename_i invited hinvited
  split at h
  · cases h
  rename_i hallowed
  obtain ⟨db₁, hinvitation, h⟩ := ok_of_bind h
  obtain ⟨hcode, rfl⟩ := insertInvitation_eq_ok hinvitation
  cases h
  exact ⟨room, creatorRole, invited, hroom, hcreator, by simpa using hallowed, hcode, rfl⟩

/-- What `redeem_invitation` has done. -/
theorem redeemInvitation_eq_ok {code taskId requestedText : Bytes}
    (h : db.redeemInvitation auth code taskId requestedText now fresh = .ok (answer, db')) :
    ∃ invitation room, db.findInvitation code = some invitation ∧ invitation.redeemedBy = none ∧
      db.findRoom invitation.roomId = some room ∧
      db.Admits room.roomId room.topology auth.deviceId invitation.invitedRole ∧
      db' = { db with
        members := db.members ++ [newMember room.roomId auth invitation.invitedRole now]
        invitations := (db.setRedeemed code auth.deviceId).invitations
        sessions := db.sessions ++
          [⟨fresh.token, room.roomId, auth.deviceId, expiry now sessionTtlMs⟩] } ∧
      answer = enrollmentResponse room.roomId room.authorizationDigest fresh.token
        (expiry now sessionTtlMs) (db'.listMembers room.roomId) := by
  rw [redeemInvitation] at h
  split at h
  · cases h
  rename_i invitation hinvitation
  split at h
  · cases h
  rename_i hopen
  split at h
  · cases h
  rename_i hrole
  split at h
  · cases h
  rename_i room hroom
  split at h
  · cases h
  obtain ⟨db₁, hadmit, h⟩ := ok_of_bind h
  obtain ⟨role, hknown, hadmits, rfl⟩ := admitMember_eq_ok.mp hadmit
  obtain ⟨rfl, rfl⟩ := enroll_eq_ok h
  obtain rfl : role = invitation.invitedRole := Option.some.inj
    (hknown.symm.trans (not_not.mp hrole))
  refine ⟨invitation, room, hinvitation, ?_, hroom, hadmits, rfl, rfl⟩
  rw [not_or] at hopen
  exact Option.not_isSome_iff_eq_none.mp hopen.2

/-- What `join_room` has done. -/
theorem joinRoom_eq_ok {roomId taskId roleText : Bytes}
    (h : db.joinRoom auth roomId taskId roleText now fresh = .ok (answer, db')) :
    ∃ room member, db.findRoom roomId = some room ∧
      db.findMember roomId auth.deviceId = some member ∧ member.revoked = false ∧
      db' = { db with
        sessions := db.sessions ++
          [⟨fresh.token, room.roomId, auth.deviceId, expiry now sessionTtlMs⟩] } ∧
      answer = enrollmentResponse room.roomId room.authorizationDigest fresh.token
        (expiry now sessionTtlMs) (db'.listMembers room.roomId) := by
  rw [joinRoom] at h
  split at h
  · cases h
  rename_i room hroom
  split at h
  · cases h
  split at h
  · cases h
  rename_i member hmember
  split at h
  · cases h
  rename_i hmatch
  obtain ⟨rfl, rfl⟩ := enroll_eq_ok h
  rw [not_or, not_or] at hmatch
  exact ⟨room, member, hroom, hmember, by simpa using hmatch.2.2, rfl, rfl⟩

/-! ## Signals -/

/-- `authorize_session`, once the header is read. -/
def authorizeSession (db : Tables) (token : Bytes) (auth : DeviceAuth) (roomId : Bytes)
    (now : Millis) : Except ApiError Unit :=
  if (db.sessions.countP fun session => session.token = token ∧ session.roomId = roomId ∧
      session.deviceId = auth.deviceId ∧ (now.1 : Int) ≤ session.expiresAtMs) ≠ 1 then
    .error (unauthorized "Tracker session is invalid or expired")
  else .ok ()

end Tables

/-- `relay_allowed`. -/
def relayAllowed (topology : Topology) (senderRole recipientRole : Role) (kind : MessageKind) :
    Bool :=
  match topology with
  | .bidirectional => senderRole = .peer && recipientRole = .peer
  | .oneWay =>
    (senderRole = .source && recipientRole = .target && kind ≠ .answer) ||
      (senderRole = .target && recipientRole = .source &&
        (kind = .answer || kind = .iceCandidate))

/-- `INT64_MAX`, the last key of an `AUTOINCREMENT` column. -/
def maxSignalId : Nat := 2 ^ 63 - 1

namespace Tables

/-- `send_signal`, after the session is authorized. -/
def sendSignal (db : Tables) (auth : DeviceAuth) (roomId kind recipient payload candidateMid
    indexText : Bytes) (now : Millis) : Except ApiError (Bytes × Tables) :=
  match parseKind kind with
  | none => .error (bad "signal is invalid")
  | some kind =>
    if payload = [] ∨ payload.length > maxSignalBytes ∨ recipient = auth.deviceId then
      .error (bad "signal is invalid")
    else
      match parseInt 32 indexText with
      | none => .error (bad "candidate index is invalid")
      | some index =>
        match db.findRoom roomId with
        | none => .error (forbidden "room does not exist")
        | some room =>
          match db.activeRole roomId auth.deviceId with
          | none => .error (forbidden "sender is not an active room member")
          | some senderRole =>
            match db.activeRole roomId recipient with
            | none => .error (forbidden "recipient is not an active room member")
            | some recipientRole =>
              if !relayAllowed room.topology senderRole recipientRole kind then
                .error (forbidden "signal violates room topology")
              else if db.signalSeq ≥ maxSignalId then .error (internal "database or disk is full")
              else
                .ok (ascii "OK\n",
                  { db with
                    signals := db.signals ++ [⟨db.signalSeq + 1, roomId, auth.deviceId, recipient,
                      kind, payload, candidateMid, index, now.1⟩]
                    signalSeq := db.signalSeq + 1 })

/-- The signals stored for a recipient in a room, by their ids. -/
def inbox (db : Tables) (roomId : Bytes) (recipient : DeviceId) : List Signal :=
  db.signals.filter fun signal => signal.roomId = roomId ∧ signal.recipient = recipient

/-- The rows that `drain_signals` selects: `ORDER BY signal_id LIMIT`. -/
def drainRows (db : Tables) (roomId : Bytes) (recipient : DeviceId) : List Signal :=
  ((db.inbox roomId recipient).insertionSort fun a b => a.signalId ≤ b.signalId).take
    maxDrainSignals

end Tables

/-- The line of one signal in the answer to a drain. -/
def signalLine (recipient : DeviceId) (signal : Signal) : Bytes :=
  ascii "SIGNAL\t" ++ kindName signal.kind ++ [tab] ++ encodeField signal.sender ++ [tab] ++
    encodeField recipient ++ [tab] ++ encodeField signal.payload ++ [tab] ++
    encodeField signal.candidateMid ++ [tab] ++ printInt signal.candidateMlineIndex ++ [newline]

/-- The answer to a drain. -/
def drainResponse (recipient : DeviceId) (rows : List Signal) : Bytes :=
  ascii "OK\n" ++ rows.flatMap (signalLine recipient) ++ ascii "END\n"

namespace Tables

/-- The `DELETE` of `drain_signals`, up to the id of the last row that was selected. -/
def deleteUpTo (db : Tables) (roomId : Bytes) (recipient : DeviceId) : Option Signal → Tables
  | none => db
  | some last =>
    { db with
      signals := db.signals.filter fun signal =>
        ¬ (signal.roomId = roomId ∧ signal.recipient = recipient ∧
          signal.signalId ≤ last.signalId) }

/-- `drain_signals`, after the session is authorized. -/
def drainSignals (db : Tables) (auth : DeviceAuth) (roomId : Bytes) : Bytes × Tables :=
  let rows := db.drainRows roomId auth.deviceId
  (drainResponse auth.deviceId rows, db.deleteUpTo roomId auth.deviceId rows.getLast?)

/-! ## Nonces

The section of `authenticate` purges, then inserts.  A key that is taken makes the insertion do
nothing, and the number of changed rows tells. -/

/-- The section of `authenticate`: expired nonces are purged, and the nonce is inserted unless it is
there. -/
def recordNonce (db : Tables) (deviceId : DeviceId) (nonce : Bytes) (purgedAt insertedAt : Millis) :
    Except ApiError Unit × Tables :=
  let db := { db with nonces := db.nonces.filter fun row => ¬ row.expiresAtMs < purgedAt.1 }
  if db.nonces.any fun row => row.deviceId = deviceId ∧ row.nonce = nonce then
    (.error (unauthorized "request nonce was already used"), db)
  else
    (.ok (), { db with
      nonces := db.nonces ++
        [⟨deviceId, nonce, expiry insertedAt (signatureSkewSeconds * 2 * 1000)⟩] })

end Tables

end Tracker

end VeritasSync
