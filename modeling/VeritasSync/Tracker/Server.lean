import VeritasSync.Lib.Run
import VeritasSync.Tracker.Store

/-!
# The tracker as a server

Requests arrive in any order and are served concurrently.  Each handler authenticates its request,
splits the body into fields, checks the session where the endpoint wants one, and then does its
work; it holds the lock on the database in each of these sections and not between them.  A run of
the server is a list of such sections: a request arrives and passes the checks that need no
database, or a request in flight goes through its next section.

The cryptography of `authenticate` is a parameter (`Primitives`).

`Trace` is bookkeeping for statements about runs; the tracker never reads it.

The sections are those of the source: each is what happens under one acquisition of the lock.  Two
requests can therefore be anywhere relative to each other, and a theorem about runs of this model
holds for all of these interleavings.  `step_cases` says once what any step can do: either the work
of a handler succeeds, or no request is answered with success and only nonces have changed.  The
invariants of the other modules start from it.
-/

set_option autoImplicit false

namespace VeritasSync

namespace Tracker

/-! ## Requests

A request is its route, its headers and its body, as the framework hands it to a handler. -/

/-- The routes that take a `POST`. -/
inductive Endpoint where
  | createRoom
  | createInvitation
  | redeemInvitation
  | joinRoom
  | sendSignal
  | drainSignals
  deriving DecidableEq

/-- The path of a route. -/
def Endpoint.path : Endpoint → Bytes
  | .createRoom => ascii "/v1/rooms/create"
  | .createInvitation => ascii "/v1/invitations/create"
  | .redeemInvitation => ascii "/v1/invitations/redeem"
  | .joinRoom => ascii "/v1/rooms/join"
  | .sendSignal => ascii "/v1/signals/send"
  | .drainSignals => ascii "/v1/signals/drain"

/-- The number of fields of a request body. -/
def Endpoint.fieldCount : Endpoint → Nat
  | .createRoom => 4
  | .createInvitation => 2
  | .redeemInvitation => 3
  | .joinRoom => 3
  | .sendSignal => 6
  | .drainSignals => 1

/-- The endpoint calls `authorize_session`. -/
def Endpoint.needsSession : Endpoint → Bool
  | .createInvitation => true
  | .sendSignal => true
  | .drainSignals => true
  | _ => false

/-- The headers that the tracker reads.  A header that is missing, or that is not text, is `none`.
-/
structure Headers where
  deviceId : Option Bytes
  publicKey : Option Bytes
  timestamp : Option Bytes
  nonce : Option Bytes
  signature : Option Bytes
  session : Option Bytes
  deriving DecidableEq

/-- A request. -/
structure Request where
  endpoint : Endpoint
  headers : Headers
  body : Bytes
  deriving DecidableEq

/-- `MAX_BODY_BYTES`. -/
def maxBodyBytes : Nat := 256 * 1024

/-- `decode_field`. -/
def decodeField (text : Bytes) : Except ApiError Bytes :=
  match unescape text with
  | none => .error (bad "malformed field escaping")
  | some decoded =>
    if validUtf8 decoded then .ok decoded else .error (bad "field is not UTF-8")

/-- `fields`. -/
def fields (body : Bytes) (expected : Nat) : Except ApiError (List Bytes) :=
  if body.length > maxBodyBytes then .error (bad "request body exceeds limit")
  else if !validUtf8 body then .error (bad "request body is not UTF-8")
  else
    let parts := body.splitOn tab
    if parts.length ≠ expected ∨ parts.any fun part => '\r'.toUInt8 ∈ part ∨ newline ∈ part then
      .error (bad "request fields are invalid")
    else parts.mapM decodeField

/-- `header`. -/
def header (value : Option Bytes) (name : String) : Except ApiError Bytes :=
  match value with
  | some (c :: rest) => .ok (c :: rest)
  | _ => .error (unauthorized ("missing " ++ name))

/-! ## Authentication

The checks before the lock need no database: the headers are there and decode, the fingerprint is
the hash of the key, the time is close, the signature is good.  The nonce comes afterwards, under
the lock. -/

/-- The libraries that `authenticate` calls. -/
structure Primitives where
  /-- `URL_SAFE_NO_PAD.decode`. -/
  decodeBase64 : Bytes → Option Bytes
  /-- `blake3::hash`. -/
  blake3 : Bytes → Bytes
  /-- `VerifyingKey::from_bytes` succeeds. -/
  isVerifyingKey : Bytes → Bool
  /-- `verify`, of a message and its signature under a key. -/
  verify : Bytes → Bytes → Bytes → Bool

/-- `i64::abs` in a release build. -/
def wrappingAbs (i : Int) : Int := if i < 0 then wrap64 (-i) else i

/-- The test of the timestamp. -/
def inWindow (now : Millis) (timestamp : Int) : Bool :=
  ¬ wrappingAbs (wrap64 ((now.1 / 1000 : Nat) - timestamp)) > signatureSkewSeconds

/-- The text that is signed. -/
def canonical (P : Primitives) (endpoint : Endpoint) (timestamp nonce body : Bytes) : Bytes :=
  ascii "POST\n" ++ endpoint.path ++ [newline] ++ timestamp ++ [newline] ++ nonce ++ [newline] ++
    hex (P.blake3 body)

/-- A request that has passed the checks of `authenticate` before its section. -/
structure Checked where
  auth : DeviceAuth
  timestampText : Bytes
  timestamp : Int
  nonce : Bytes
  deriving DecidableEq

/-- `authenticate` up to the lock. -/
def checkRequest (P : Primitives) (request : Request) (now : Millis) : Except ApiError Checked := do
  let deviceId ← header request.headers.deviceId "x-veritassync-device-id"
  let publicKeyText ← header request.headers.publicKey "x-veritassync-public-key"
  let timestampText ← header request.headers.timestamp "x-veritassync-timestamp"
  let nonce ← header request.headers.nonce "x-veritassync-nonce"
  let signatureText ← header request.headers.signature "x-veritassync-signature"
  if nonce.length > 80 ∨ deviceId.length ≠ 32 then
    throw (unauthorized "invalid device request metadata")
  match parseInt 64 timestampText with
  | none => throw (unauthorized "invalid timestamp")
  | some timestamp =>
    if !inWindow now timestamp then
      throw (unauthorized "request timestamp is outside the accepted window")
    match P.decodeBase64 publicKeyText with
    | none => throw (unauthorized "invalid public key")
    | some publicKey =>
      if publicKey.length ≠ 32 then throw (unauthorized "invalid public key size")
      let fingerprint := P.blake3 publicKey
      if hex (fingerprint.take 16) ≠ deviceId then
        throw (unauthorized "device id does not match public key")
      match P.decodeBase64 signatureText with
      | none => throw (unauthorized "invalid request signature")
      | some signature =>
        if signature.length ≠ 64 then throw (unauthorized "invalid request signature size")
        if !P.isVerifyingKey publicKey then throw (unauthorized "invalid Ed25519 public key")
        if !P.verify publicKey (canonical P request.endpoint timestampText nonce request.body)
            signature then
          throw (unauthorized "request signature verification failed")
        pure ⟨⟨deviceId, publicKeyText, hex fingerprint⟩, timestampText, timestamp, nonce⟩

theorem header_eq_ok {value : Option Bytes} {name : String} {text : Bytes}
    (h : header value name = .ok text) : value = some text := by
  rw [header.eq_def] at h
  split at h
  · cases h
    rfl
  · cases h

/-- A test that did not throw. -/
theorem ok_of_guard {α : Type} {c : Prop} [Decidable c] {e : ApiError}
    {k : Unit → Except ApiError α}
    {a : α} (h : (if c then throw e >>= k else k ()) = .ok a) : ¬ c ∧ k () = .ok a := by
  split at h
  · cases h
  · rename_i hc
    exact ⟨hc, h⟩

/-- What the checks before the lock have seen. -/
theorem checkRequest_eq_ok {P : Primitives} {request : Request} {now : Millis} {checked : Checked}
    (h : checkRequest P request now = .ok checked) :
    request.headers.deviceId = some checked.auth.deviceId ∧
      request.headers.timestamp = some checked.timestampText ∧
      parseInt 64 checked.timestampText = some checked.timestamp ∧
      inWindow now checked.timestamp = true := by
  unfold checkRequest at h
  obtain ⟨deviceId, hdevice, h⟩ := Tables.ok_of_bind h
  obtain ⟨publicKeyText, -, h⟩ := Tables.ok_of_bind h
  obtain ⟨timestampText, htext, h⟩ := Tables.ok_of_bind h
  obtain ⟨nonce, -, h⟩ := Tables.ok_of_bind h
  obtain ⟨signatureText, -, h⟩ := Tables.ok_of_bind h
  obtain ⟨-, h⟩ := ok_of_guard h
  split at h
  · cases h
  rename_i timestamp hparse
  obtain ⟨hwindow, h⟩ := ok_of_guard h
  split at h
  · cases h
  obtain ⟨-, h⟩ := ok_of_guard h
  obtain ⟨-, h⟩ := ok_of_guard h
  split at h
  · cases h
  obtain ⟨-, h⟩ := ok_of_guard h
  obtain ⟨-, h⟩ := ok_of_guard h
  obtain ⟨-, h⟩ := ok_of_guard h
  cases h
  exact ⟨header_eq_ok hdevice, header_eq_ok htext, hparse, by simpa using hwindow⟩

/-! ## Handlers

`serve` is the last section of every route.  `Served` says, for a request that was answered with
success, which handler it was and what fields it got. -/

/-- The work of a handler, after its request is authenticated, split into fields and authorized. -/
def serve (db : Tables) (endpoint : Endpoint) (auth : DeviceAuth) (values : List Bytes)
    (now : Millis) (fresh : Fresh) : Except ApiError (Bytes × Tables) :=
  match endpoint, values with
  | .createRoom, [taskId, topology, localRole, invitedRole] =>
    db.createRoom auth taskId topology localRole invitedRole now fresh
  | .createInvitation, [roomId, invitedRole] =>
    db.createInvitation auth roomId invitedRole now fresh
  | .redeemInvitation, [code, taskId, requestedRole] =>
    db.redeemInvitation auth code taskId requestedRole now fresh
  | .joinRoom, [roomId, taskId, role] => db.joinRoom auth roomId taskId role now fresh
  | .sendSignal, [roomId, kind, recipient, payload, candidateMid, indexText] =>
    db.sendSignal auth roomId kind recipient payload candidateMid indexText now
  | .drainSignals, [roomId] => .ok (db.drainSignals auth roomId)
  | _, _ => .error (bad "request fields are invalid")

/-- Which handler has served a request with success, and with which fields. -/
inductive Served (db : Tables) (auth : DeviceAuth) (now : Millis) (fresh : Fresh) :
    Endpoint → List Bytes → Bytes → Tables → Prop where
  | createRoom {taskId topology localRole invitedRole answer db'}
      (h : db.createRoom auth taskId topology localRole invitedRole now fresh = .ok (answer, db')) :
      Served db auth now fresh .createRoom [taskId, topology, localRole, invitedRole] answer db'
  | createInvitation {roomId invitedRole answer db'}
      (h : db.createInvitation auth roomId invitedRole now fresh = .ok (answer, db')) :
      Served db auth now fresh .createInvitation [roomId, invitedRole] answer db'
  | redeemInvitation {code taskId requestedRole answer db'}
      (h : db.redeemInvitation auth code taskId requestedRole now fresh = .ok (answer, db')) :
      Served db auth now fresh .redeemInvitation [code, taskId, requestedRole] answer db'
  | joinRoom {roomId taskId role answer db'}
      (h : db.joinRoom auth roomId taskId role now fresh = .ok (answer, db')) :
      Served db auth now fresh .joinRoom [roomId, taskId, role] answer db'
  | sendSignal {roomId kind recipient payload candidateMid indexText answer db'}
      (h : db.sendSignal auth roomId kind recipient payload candidateMid indexText now =
        .ok (answer, db')) :
      Served db auth now fresh .sendSignal
        [roomId, kind, recipient, payload, candidateMid, indexText] answer db'
  | drainSignals {roomId} :
      Served db auth now fresh .drainSignals [roomId] (db.drainSignals auth roomId).1
        (db.drainSignals auth roomId).2

theorem served {db : Tables} {endpoint : Endpoint} {auth : DeviceAuth} {values : List Bytes}
    {now : Millis} {fresh : Fresh} {answer : Bytes} {db' : Tables}
    (h : serve db endpoint auth values now fresh = .ok (answer, db')) :
    Served db auth now fresh endpoint values answer db' := by
  rw [serve.eq_def] at h
  split at h
  · exact .createRoom h
  · exact .createInvitation h
  · exact .redeemInvitation h
  · exact .joinRoom h
  · exact .sendSignal h
  · cases h
    exact .drainSignals
  · cases h

/-- The next section of a request in flight. -/
inductive Stage where
  /-- The end of `authenticate`. -/
  | nonce
  /-- `authorize_session`. -/
  | session (values : List Bytes)
  /-- The work of the handler. -/
  | work (values : List Bytes)
  deriving DecidableEq

/-- A request in flight. -/
structure Call where
  request : Request
  checked : Checked
  /-- When the timestamp was tested. -/
  checkedAt : Millis
  stage : Stage
  deriving DecidableEq

/-- A signal as its sender posts it. -/
structure Message where
  roomId : Bytes
  kind : MessageKind
  sender : DeviceId
  recipient : DeviceId
  payload : Bytes
  candidateMid : Bytes
  candidateMlineIndex : Int
  deriving DecidableEq

/-- The message of a stored signal. -/
def Signal.message (signal : Signal) : Message :=
  ⟨signal.roomId, signal.kind, signal.sender, signal.recipient, signal.payload,
    signal.candidateMid, signal.candidateMlineIndex⟩

/-- The message that the fields of a request amount to. -/
def messageOf (auth : DeviceAuth) : List Bytes → Option Message
  | [roomId, kind, recipient, payload, candidateMid, indexText] =>
    match parseKind kind, parseInt 32 indexText with
    | some kind, some index => some ⟨roomId, kind, auth.deviceId, recipient, payload,
      candidateMid, index⟩
    | _, _ => none
  | _ => none

/-- What a send that is accepted has done. -/
theorem Tables.sendSignal_eq_ok {db db' : Tables} {auth : DeviceAuth}
    {roomId kind recipient payload mid indexText answer : Bytes} {now : Millis}
    (h : db.sendSignal auth roomId kind recipient payload mid indexText now = .ok (answer, db')) :
    ∃ message, messageOf auth [roomId, kind, recipient, payload, mid, indexText] = some message ∧
      ∃ signal : Signal, signal.message = message ∧ signal.signalId = db.signalSeq + 1 ∧
        db' = { db with signals := db.signals ++ [signal], signalSeq := db.signalSeq + 1 } := by
  rw [Tables.sendSignal] at h
  split at h
  · cases h
  rename_i kind' hkind
  split at h
  · cases h
  split at h
  · cases h
  rename_i index hindex
  split at h
  · cases h
  split at h
  · cases h
  split at h
  · cases h
  split at h
  · cases h
  split at h
  · cases h
  cases h
  refine ⟨⟨roomId, kind', auth.deviceId, recipient, payload, mid, index⟩, ?_, _, rfl, rfl, rfl⟩
  simp only [messageOf, hkind, hindex]

/-- A drain touches no table but the signals. -/
theorem Tables.drainSignals_signals (db : Tables) (auth : DeviceAuth) (roomId : Bytes) :
    ∃ signals, (db.drainSignals auth roomId).2 = { db with signals } := by
  rw [Tables.drainSignals]
  cases (db.drainRows roomId auth.deviceId).getLast? with
  | none => exact ⟨db.signals, rfl⟩
  | some last => exact ⟨_, rfl⟩

/-- What a drain returned. -/
structure Batch where
  roomId : Bytes
  recipient : DeviceId
  signals : List Signal
  deriving DecidableEq

/-- What has happened so far, oldest first. -/
structure Trace where
  /-- The requests that `authenticate` has accepted. -/
  accepted : List Call
  /-- The codes that have been redeemed, and by whom. -/
  redeemed : List (Bytes × DeviceId)
  /-- The messages whose sends have been accepted. -/
  sent : List Message
  /-- The batches that have been drained. -/
  drained : List Batch
  /-- The answers to requests. -/
  replies : List (Request × Except ApiError Bytes)
  deriving DecidableEq

/-- The tracker and the requests in flight. -/
structure Server where
  db : Tables
  clock : Millis
  calls : List Call
  trace : Trace

namespace Server

/-- A tracker that has just been started on a new file. -/
def start (clock : Millis) : Server := ⟨.empty, clock, [], ⟨[], [], [], [], []⟩⟩

/-- A reading of the clock, which does not go back. -/
def tick (s : Server) (now : Millis) : Millis := max s.clock now

/-- The request is answered. -/
def reply (s : Server) (request : Request) (response : Except ApiError Bytes) : Server :=
  { s with trace := { s.trace with replies := s.trace.replies ++ [(request, response)] } }

/-- The request goes on to the given stage. -/
def proceed (s : Server) (call : Call) (stage : Stage) : Server :=
  { s with calls := s.calls ++ [{ call with stage }] }

/-- What the work of a handler adds to the trace. -/
def record (trace : Trace) (endpoint : Endpoint) (auth : DeviceAuth) (values : List Bytes)
    (before : Tables) : Trace :=
  match endpoint, values with
  | .redeemInvitation, code :: _ =>
    { trace with redeemed := trace.redeemed ++ [(code, auth.deviceId)] }
  | .sendSignal, values => { trace with sent := trace.sent ++ (messageOf auth values).toList }
  | .drainSignals, roomId :: _ =>
    { trace with
      drained := trace.drained ++
        [⟨roomId, auth.deviceId, before.drainRows roomId auth.deviceId⟩] }
  | _, _ => trace

/-- The section of `authenticate`, and `fields` after it. -/
def stepNonce (s : Server) (call : Call) (purgedAt insertedAt : Millis) : Server :=
  match s.db.recordNonce call.checked.auth.deviceId call.checked.nonce purgedAt insertedAt with
  | (.error e, db) => { s with db }.reply call.request (.error e)
  | (.ok (), db) =>
    let s := { s with db, trace := { s.trace with accepted := s.trace.accepted ++ [call] } }
    match fields call.request.body call.request.endpoint.fieldCount with
    | .error e => s.reply call.request (.error e)
    | .ok values =>
      s.proceed call (if call.request.endpoint.needsSession then .session values else .work values)

/-- `authorize_session`. -/
def stepSession (s : Server) (call : Call) (values : List Bytes) (now : Millis) : Server :=
  match header call.request.headers.session "x-veritassync-session" with
  | .error e => s.reply call.request (.error e)
  | .ok token =>
    match s.db.authorizeSession token call.checked.auth (values.headD []) now with
    | .error e => s.reply call.request (.error e)
    | .ok () => s.proceed call (.work values)

/-- The work of the handler. -/
def stepWork (s : Server) (call : Call) (values : List Bytes) (now : Millis) (fresh : Fresh) :
    Server :=
  match serve s.db call.request.endpoint call.checked.auth values now fresh with
  | .error e => s.reply call.request (.error e)
  | .ok (answer, db) =>
    { s with
      db
      trace := record s.trace call.request.endpoint call.checked.auth values s.db }.reply
      call.request (.ok answer)

/-- What can happen. -/
inductive Action where
  /-- A request arrives. -/
  | arrive (request : Request) (now : Millis)
  /-- A request in flight goes through its next section, with two readings of the clock. -/
  | advance (index : Nat) (first second : Millis) (fresh : Fresh)

/-- One action. -/
def step (P : Primitives) (s : Server) : Action → Server
  | .arrive request now =>
    let s := { s with clock := s.tick now }
    match checkRequest P request s.clock with
    | .error e => s.reply request (.error e)
    | .ok checked => { s with calls := s.calls ++ [⟨request, checked, s.clock, .nonce⟩] }
  | .advance index first second fresh =>
    match s.calls[index]? with
    | none => s
    | some call =>
      let first := s.tick first
      let second := max first second
      let s := { s with clock := second, calls := s.calls.eraseIdx index }
      match call.stage with
      | .nonce => s.stepNonce call first second
      | .session values => s.stepSession call values first
      | .work values => s.stepWork call values first fresh

/-! ## What a step can do

Everything that is proved about runs of the tracker goes through `step_cases`. -/

/-- A step that answers no request with success: it touches no table but the nonces. -/
structure Quiet (s s' : Server) : Prop where
  db : ∃ nonces, s'.db = { s.db with nonces }
  redeemed : s'.trace.redeemed = s.trace.redeemed
  sent : s'.trace.sent = s.trace.sent
  drained : s'.trace.drained = s.trace.drained
  replies : s'.trace.replies = s.trace.replies ∨
    ∃ request e, s'.trace.replies = s.trace.replies ++ [(request, .error e)]

/-- A step in which the work of a handler succeeds.  It is the only kind of step that can change
anything about rooms, members, invitations, sessions or signals. -/
structure Worked (s s' : Server) (call : Call) (values : List Bytes) (now : Millis) (fresh : Fresh)
    (answer : Bytes) : Prop where
  served : Served s.db call.checked.auth now fresh call.request.endpoint values answer s'.db
  redeemed : s'.trace.redeemed =
    (record s.trace call.request.endpoint call.checked.auth values s.db).redeemed
  sent : s'.trace.sent =
    (record s.trace call.request.endpoint call.checked.auth values s.db).sent
  drained : s'.trace.drained =
    (record s.trace call.request.endpoint call.checked.auth values s.db).drained
  replies : s'.trace.replies = s.trace.replies ++ [(call.request, .ok answer)]

/-- The answers are not the business of `record`. -/
theorem record_replies (trace : Trace) (endpoint : Endpoint) (auth : DeviceAuth)
    (values : List Bytes) (before : Tables) :
    (record trace endpoint auth values before).replies = trace.replies := by
  rw [record.eq_def]
  split <;> rfl

theorem record_accepted (trace : Trace) (endpoint : Endpoint) (auth : DeviceAuth)
    (values : List Bytes) (before : Tables) :
    (record trace endpoint auth values before).accepted = trace.accepted := by
  rw [record.eq_def]
  split <;> rfl

theorem recordNonce_nonces (db : Tables) (deviceId : DeviceId) (nonce : Bytes)
    (purgedAt insertedAt : Millis) :
    ∃ nonces, (db.recordNonce deviceId nonce purgedAt insertedAt).2 = { db with nonces } := by
  rw [Tables.recordNonce]
  simp only
  split
  · exact ⟨_, rfl⟩
  · exact ⟨_, rfl⟩

theorem quiet_stepNonce (s : Server) (call : Call) (purgedAt insertedAt : Millis) :
    Quiet s (s.stepNonce call purgedAt insertedAt) := by
  obtain ⟨nonces, hnonces⟩ := recordNonce_nonces s.db call.checked.auth.deviceId call.checked.nonce
    purgedAt insertedAt
  rw [stepNonce]
  split
  · rename_i e db h
    rw [h] at hnonces
    exact ⟨⟨nonces, hnonces⟩, rfl, rfl, rfl, .inr ⟨_, e, rfl⟩⟩
  · rename_i db h
    rw [h] at hnonces
    simp only
    split
    · rename_i e _
      exact ⟨⟨nonces, hnonces⟩, rfl, rfl, rfl, .inr ⟨_, e, rfl⟩⟩
    · exact ⟨⟨nonces, hnonces⟩, rfl, rfl, rfl, .inl rfl⟩

theorem quiet_stepSession (s : Server) (call : Call) (values : List Bytes) (now : Millis) :
    Quiet s (s.stepSession call values now) := by
  rw [stepSession]
  split
  · exact ⟨⟨_, rfl⟩, rfl, rfl, rfl, .inr ⟨_, _, rfl⟩⟩
  · split
    · exact ⟨⟨_, rfl⟩, rfl, rfl, rfl, .inr ⟨_, _, rfl⟩⟩
    · exact ⟨⟨_, rfl⟩, rfl, rfl, rfl, .inl rfl⟩

/-- **Every step is quiet, or the work of a handler that succeeds.**  The invariants of the tracker
are proved from this and do not look at `step` again. -/
theorem step_cases (P : Primitives) (s : Server) (action : Action) :
    Quiet s (step P s action) ∨
      ∃ call ∈ s.calls, ∃ values now fresh answer, call.stage = .work values ∧
        Worked s (step P s action) call values now fresh answer := by
  cases action with
  | arrive request now =>
    refine .inl ?_
    rw [step]
    simp only
    split
    · exact ⟨⟨_, rfl⟩, rfl, rfl, rfl, .inr ⟨_, _, rfl⟩⟩
    · exact ⟨⟨_, rfl⟩, rfl, rfl, rfl, .inl rfl⟩
  | advance index first second fresh =>
    rw [step]
    split
    · exact .inl ⟨⟨_, rfl⟩, rfl, rfl, rfl, .inl rfl⟩
    rename_i call hcall
    simp only
    split
    · have h := quiet_stepNonce
        { s with clock := max (s.tick first) second, calls := s.calls.eraseIdx index }
        call (s.tick first) (max (s.tick first) second)
      exact .inl ⟨h.db, h.redeemed, h.sent, h.drained, h.replies⟩
    · rename_i values _
      have h := quiet_stepSession
        { s with clock := max (s.tick first) second, calls := s.calls.eraseIdx index }
        call values (s.tick first)
      exact .inl ⟨h.db, h.redeemed, h.sent, h.drained, h.replies⟩
    · rename_i values hstage
      rw [stepWork]
      split
      · exact .inl ⟨⟨_, rfl⟩, rfl, rfl, rfl, .inr ⟨_, _, rfl⟩⟩
      · rename_i answer db hserve
        exact .inr ⟨call, List.mem_of_getElem? hcall, values, _, fresh, answer, hstage,
          ⟨served hserve, rfl, rfl, rfl, congrArg (· ++ _) (record_replies _ _ _ _ _)⟩⟩

end Server

end Tracker

end VeritasSync
