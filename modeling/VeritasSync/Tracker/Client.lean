import VeritasSync.Tracker.Contract
import VeritasSync.Tracker.Membership
import VeritasSync.Tracker.Replay

/-!
# The client of the tracker

`TrackerClient` posts a request, reads the answer from WinHTTP piece by piece, up to a limit of one
mebibyte, and then parses it line by line.

The two sides agree on the format: what the tracker writes, the client parses to what the tracker
stored (`parseEnrollment_response`, `parseInbox_response`).  They do not agree on the size.  The
tracker puts up to 256 signals into one answer and deletes them, whatever their payloads come to; an
answer above the limit is dropped by the client, and with it the signals.

An answer gets to the parser in the pieces in which the network delivers it, so reading it is a loop
with a counter.  The limit is compared with what has been read and what is about to be read, and an
answer that is too long is thrown away as a whole.  By then the tracker has deleted the signals it
contained.

So there is an exact condition under which the client learns what the tracker has told it
(`client_reads_iff_legible`), and it is about sizes.  A run of six messages that are lost shows that
honest devices can leave it.
-/

set_option autoImplicit false

namespace VeritasSync

namespace Tracker

/-! ## The transport

The pieces in which an answer arrives are an argument.  How it is cut makes no difference to what is
read, or to whether it is. -/

/-- `kMaxTrackerResponse`: the client reads no answer that is longer. -/
def maxTrackerResponse : Nat := 1024 * 1024

/-- The loop of `WinHttpTrackerTransport::Post`, over the pieces in which the answer arrives. -/
def readResponse (response : Bytes) : List Bytes → Except String Bytes
  | [] => .ok response
  | piece :: rest =>
    if response.length + piece.length > maxTrackerResponse then
      .error "Tracker response exceeds limit"
    else readResponse (response ++ piece) rest

/-- **An answer is received when it is within the limit**, however it is cut into pieces. -/
theorem readResponse_eq (response : Bytes) (pieces : List Bytes)
    (hresponse : response.length ≤ maxTrackerResponse) :
    readResponse response pieces =
      if (response ++ pieces.flatten).length ≤ maxTrackerResponse then
        .ok (response ++ pieces.flatten)
      else .error "Tracker response exceeds limit" := by
  induction pieces generalizing response with
  | nil =>
    rw [List.flatten_nil, List.append_nil, if_pos hresponse]
    rfl
  | cons piece rest ih =>
    rw [readResponse, List.flatten_cons, ← List.append_assoc]
    by_cases hpiece : response.length + piece.length > maxTrackerResponse
    · rw [if_pos hpiece, if_neg]
      rw [List.length_append, List.length_append]
      omega
    · rw [if_neg hpiece, ih]
      rw [List.length_append]
      omega

/-! ## Parsing

The parser takes the lines of an answer apart with the splitter of the client and reads the numbers
in it.  It is strict: a line with another number of fields is an exception, and so is a field that
does not decode. -/

/-- The lines that `std::getline` returns, one after the other. -/
def lines (text : Bytes) : List Bytes :=
  if (text.splitOn newline).getLast? = some [] then (text.splitOn newline).dropLast
  else text.splitOn newline

/-- `DecodeField`: a field of an answer, unescaped. -/
def decodeText (text : Bytes) : Except String Bytes :=
  match unescape text with
  | none => .error "Tracker returned malformed escaping"
  | some decoded => .ok decoded

/-- `ParseInteger`: a number, and nothing after it. -/
def parseInteger (text : Bytes) (field : String) : Except String Int :=
  match fromChars text with
  | none => .error ("tracker returned invalid " ++ field)
  | some i => .ok i

/-- `ParseRole`, which throws. -/
def readRole (text : Bytes) : Except String Role :=
  match parseRole text with
  | none => .error "tracker returned an invalid role"
  | some role => .ok role

/-- `ParseKind`, which throws. -/
def readKind (text : Bytes) : Except String MessageKind :=
  match parseKind text with
  | none => .error "tracker returned an invalid signal kind"
  | some kind => .ok kind

/-- `TrackerMember`: a device of a room, as the tracker lists it. -/
structure TrackerMember where
  deviceId : DeviceId
  fingerprint : Bytes
  role : Role
  deriving DecidableEq

/-- `TrackerEnrollment`: what a device learns when it gets into a room. -/
structure TrackerEnrollment where
  roomId : Bytes
  authorizationDigest : Bytes
  sessionToken : Bytes
  sessionExpiresAtMs : Int
  members : List TrackerMember
  deriving DecidableEq

/-- `CreatedInvitation`: an enrollment, and the code for the next device. -/
structure CreatedInvitation extends TrackerEnrollment where
  invitationCode : Bytes
  deriving DecidableEq

/-- The loop over the member rows: whether the end was seen, and the members. -/
def parseMembers : List Bytes → Except String (Bool × List TrackerMember)
  | [] => .ok (false, [])
  | line :: rest =>
    match line.splitOn tab with
    | [tag] =>
      if tag = ascii "END" then .ok (true, []) else .error "Tracker member row is invalid"
    | [tag, deviceId, fingerprint, role] =>
      if tag ≠ ascii "MEMBER" then .error "Tracker member row is invalid"
      else do
        let deviceId ← decodeText deviceId
        let fingerprint ← decodeText fingerprint
        let role ← readRole role
        let (ended, members) ← parseMembers rest
        pure (ended, ⟨deviceId, fingerprint, role⟩ :: members)
    | _ => .error "Tracker member row is invalid"

/-- `ParseEnrollment`: the first line, the rows of the members, and the end mark. -/
def parseEnrollment (response : Bytes) : Except String TrackerEnrollment :=
  match lines response with
  | [] => .error "Tracker returned an empty response"
  | first :: rest =>
    match first.splitOn tab with
    | [tag, roomId, digest, token, expires, marker] =>
      if tag ≠ ascii "OK" then .error "Tracker enrollment response is invalid"
      else do
        let roomId ← decodeText roomId
        let digest ← decodeText digest
        let token ← decodeText token
        let expires ← parseInteger expires "session expiry"
        if marker ≠ ascii "MEMBERS" then .error "Tracker enrollment marker is invalid"
        else do
          let (ended, members) ← parseMembers rest
          if !ended ∨ roomId = [] ∨ digest.length ≠ 64 ∨ token = [] ∨ expires ≤ 0 then
            .error "Tracker enrollment is incomplete"
          else pure ⟨roomId, digest, token, expires, members⟩
    | _ => .error "Tracker enrollment response is invalid"

/-- The parsing of `CreateRoom`: the text up to the first newline is the invitation. -/
def parseCreated (response : Bytes) : Except String CreatedInvitation :=
  if newline ∉ response then .error "Tracker invitation response is invalid"
  else
    match (response.takeWhile (· ≠ newline)).splitOn tab with
    | [tag, code] =>
      if tag ≠ ascii "INVITE" then .error "Tracker invitation code is missing"
      else do
        let enrollment ← parseEnrollment ((response.dropWhile (· ≠ newline)).drop 1)
        let code ← decodeText code
        pure ⟨enrollment, code⟩
    | _ => .error "Tracker invitation code is missing"

/-- The loop over the signal rows: whether the end was seen, and the messages. -/
def parseSignals (deviceId : DeviceId) : List Bytes → Except String (Bool × List RelayMessage)
  | [] => .ok (false, [])
  | line :: rest =>
    match line.splitOn tab with
    | [tag] =>
      if tag = ascii "END" then .ok (true, []) else .error "Tracker signal row is invalid"
    | [tag, kind, sender, recipient, payload, mid, index] =>
      if tag ≠ ascii "SIGNAL" then .error "Tracker signal row is invalid"
      else do
        let index ← parseInteger index "candidate index"
        if hrange : inRange 32 index = true then do
          let kind ← readKind kind
          let sender ← decodeText sender
          let payload ← decodeText payload
          let mid ← decodeText mid
          let recipient ← decodeText recipient
          if recipient ≠ deviceId then .error "Tracker signal recipient is invalid"
          else do
            let (ended, messages) ← parseSignals deviceId rest
            pure (ended, ⟨kind, sender, deviceId, payload, mid, index, hrange⟩ :: messages)
        else .error "Tracker candidate index is out of range"
    | _ => .error "Tracker signal row is invalid"

/-- The parsing of `DrainInbox`. -/
def parseInbox (deviceId : DeviceId) (response : Bytes) : Except String (List RelayMessage) :=
  match lines response with
  | [] => .error "Tracker inbox response is invalid"
  | first :: rest =>
    if first ≠ ascii "OK" then .error "Tracker inbox response is invalid"
    else do
      let (ended, messages) ← parseSignals deviceId rest
      if !ended then .error "Tracker inbox response is incomplete" else pure messages

/-! ### What the client makes of the answers

For each answer that the tracker composes, what the client parses it to is what was in the tables.
The two sides were written in different languages, so this is where a difference would show. -/

/-- A list of lines is read back. -/
theorem lines_flatMap {texts : List Bytes} (h : ∀ text ∈ texts, newline ∉ text) :
    lines (texts.flatMap (· ++ [newline])) = texts := by
  have hjoin : texts.flatMap (· ++ [newline]) = [newline].intercalate (texts ++ [[]]) := by
    clear h
    induction texts with
    | nil => rfl
    | cons text rest ih =>
      rw [List.flatMap_cons, List.cons_append, List.intercalate_cons_of_ne_nil (by simp), ih]
  have hsplit : (texts.flatMap (· ++ [newline])).splitOn newline = texts ++ [[]] := by
    rw [hjoin]
    refine List.splitOn_intercalate newline (fun text htext => ?_) (by simp)
    rcases List.mem_append.mp htext with htext | htext
    · exact h text htext
    · rw [List.mem_singleton.mp htext]
      exact List.not_mem_nil
  rw [lines, hsplit, List.getLast?_concat, if_pos rfl, List.dropLast_concat]

theorem newline_notMem_joinFields (parts : List Field) : newline ∉ joinFields parts := by
  intro hmem
  rcases mem_joinFields hmem with h | ⟨field, -, hfield⟩
  · exact absurd h (by decide)
  · exact field.not_mem (by decide) (by decide) hfield

theorem decodeText_encodeField (text : Bytes) : decodeText (encodeField text) = .ok text := by
  rw [decodeText, unescape_encodeField]

theorem parseInteger_printInt {i : Int} (h : inRange 64 i = true) (field : String) :
    parseInteger (printInt i) field = .ok i := by
  rw [parseInteger, fromChars, parseSigned_printInt false h]

theorem plain_ok : ∀ c ∈ ascii "OK", isPlain c = true := by decide +kernel
theorem plain_members : ∀ c ∈ ascii "MEMBERS", isPlain c = true := by decide +kernel
theorem plain_member : ∀ c ∈ ascii "MEMBER", isPlain c = true := by decide +kernel
theorem plain_signal : ∀ c ∈ ascii "SIGNAL", isPlain c = true := by decide +kernel
theorem plain_invite : ∀ c ∈ ascii "INVITE", isPlain c = true := by decide +kernel

theorem plain_roleName (role : Role) : ∀ c ∈ roleName role, isPlain c = true := by
  cases role <;> decide +kernel

/-- The fields of a member row. -/
def memberFields (member : MemberRow) : List Field :=
  [.word (ascii "MEMBER") plain_member, .escaped member.deviceId, .escaped member.fingerprint,
    .word (roleName member.role) (plain_roleName member.role)]

theorem memberLine_eq (member : MemberRow) :
    memberLine member = joinFields (memberFields member) ++ [newline] := by
  simp only [memberFields, joinFields_cons_cons, joinFields_singleton, memberLine,
    List.append_assoc]
  rfl

/-- The fields of a signal row. -/
def signalFields (recipient : DeviceId) (signal : Signal) : List Field :=
  [.word (ascii "SIGNAL") plain_signal, .word (kindName signal.kind) (plain_kindName signal.kind),
    .escaped signal.sender, .escaped recipient, .escaped signal.payload,
    .escaped signal.candidateMid, .number signal.candidateMlineIndex]

theorem signalLine_eq (recipient : DeviceId) (signal : Signal) :
    signalLine recipient signal = joinFields (signalFields recipient signal) ++ [newline] := by
  simp only [signalFields, joinFields_cons_cons, joinFields_singleton, signalLine,
    List.append_assoc]
  rfl

/-- A row of the tracker as the client has it. -/
def MemberRow.member (row : MemberRow) : TrackerMember := ⟨row.deviceId, row.fingerprint, row.role⟩

theorem splitOn_end : (ascii "END").splitOn tab = [ascii "END"] := by decide

theorem parseMembers_lines (rows : List MemberRow) :
    parseMembers (rows.map (fun row => joinFields (memberFields row)) ++ [ascii "END"]) =
      .ok (true, rows.map MemberRow.member) := by
  induction rows with
  | nil =>
    rw [List.map_nil, List.nil_append, parseMembers, splitOn_end]
    rfl
  | cons row rest ih =>
    have hsplit : (joinFields (memberFields row)).splitOn tab =
        [ascii "MEMBER", encodeField row.deviceId, encodeField row.fingerprint,
          roleName row.role] :=
      splitOn_joinFields (List.cons_ne_nil _ _)
    have hrole : readRole (roleName row.role) = .ok row.role := by
      rw [readRole, parseRole_roleName]
    rw [List.map_cons, List.cons_append, parseMembers, hsplit]
    simp only [ne_eq, not_true_eq_false, if_false, decodeText_encodeField, hrole, ih]
    rfl

/-- What the tables say of the last enrolment: its session, the room and the members. -/
def Tables.lastEnrollment (db : Tables) : Option TrackerEnrollment := do
  let session ← db.sessions.getLast?
  let room ← db.findRoom session.roomId
  some ⟨room.roomId, room.authorizationDigest, session.token, session.expiresAtMs,
    (db.listMembers room.roomId).map MemberRow.member⟩

/-- The first line of the answer to an enrolment. -/
def enrollmentFields (roomId digest token : Bytes) (expiresAtMs : Int) : List Field :=
  [.word (ascii "OK") plain_ok, .escaped roomId, .escaped digest, .escaped token,
    .number expiresAtMs, .word (ascii "MEMBERS") plain_members]

theorem lines_enrollmentResponse (roomId digest token : Bytes) (expiresAtMs : Int)
    (members : List MemberRow) :
    lines (enrollmentResponse roomId digest token expiresAtMs members) =
      joinFields (enrollmentFields roomId digest token expiresAtMs) ::
        (members.map (fun row => joinFields (memberFields row)) ++ [ascii "END"]) := by
  have hfirst : ascii "OK\t" ++ encodeField roomId ++ [tab] ++ encodeField digest ++ [tab] ++
      encodeField token ++ [tab] ++ printInt expiresAtMs ++ ascii "\tMEMBERS\n" =
        joinFields (enrollmentFields roomId digest token expiresAtMs) ++ [newline] := by
    simp only [enrollmentFields, joinFields_cons_cons, joinFields_singleton, List.append_assoc]
    rfl
  have hmembers : members.flatMap memberLine =
      (members.map fun row => joinFields (memberFields row)).flatMap (· ++ [newline]) := by
    rw [List.flatMap_map]
    exact List.flatMap_congr fun row _ => memberLine_eq row
  have hall : enrollmentResponse roomId digest token expiresAtMs members =
      (joinFields (enrollmentFields roomId digest token expiresAtMs) ::
        (members.map (fun row => joinFields (memberFields row)) ++ [ascii "END"])).flatMap
          (· ++ [newline]) := by
    rw [enrollmentResponse, hfirst, hmembers, List.flatMap_cons, List.flatMap_append,
      List.append_assoc]
    rfl
  rw [hall, lines_flatMap]
  intro text htext
  rcases List.mem_cons.mp htext with rfl | htext
  · exact newline_notMem_joinFields _
  rcases List.mem_append.mp htext with htext | htext
  · obtain ⟨row, -, rfl⟩ := List.mem_map.mp htext
    exact newline_notMem_joinFields _
  · rw [List.mem_singleton.mp htext]
    decide

/-- **What the client makes of the answer to an enrolment.**  The fields go through two codecs, the
rows through two splitters, and the numbers through two printers. -/
theorem parseEnrollment_response {roomId digest token : Bytes} {expiresAtMs : Int}
    (members : List MemberRow) (hrange : inRange 64 expiresAtMs = true) (hroom : roomId ≠ [])
    (hdigest : digest.length = 64) (htoken : token ≠ []) :
    parseEnrollment (enrollmentResponse roomId digest token expiresAtMs members) =
      if expiresAtMs ≤ 0 then .error "Tracker enrollment is incomplete"
      else .ok ⟨roomId, digest, token, expiresAtMs, members.map MemberRow.member⟩ := by
  have hsplit : (joinFields (enrollmentFields roomId digest token expiresAtMs)).splitOn tab =
      [ascii "OK", encodeField roomId, encodeField digest, encodeField token, printInt expiresAtMs,
        ascii "MEMBERS"] := splitOn_joinFields (List.cons_ne_nil _ _)
  have hinteger := parseInteger_printInt hrange "session expiry"
  rw [parseEnrollment, lines_enrollmentResponse]
  simp only [hsplit, ne_eq, not_true_eq_false, if_false, decodeText_encodeField, hinteger,
    parseMembers_lines]
  change (if (!true) = true ∨ roomId = [] ∨ ¬ digest.length = 64 ∨ token = [] ∨ expiresAtMs ≤ 0 then
    Except.error _ else Except.ok _) = _
  simp only [Bool.not_true, Bool.false_eq_true, hroom, hdigest, htoken, not_true_eq_false, false_or]

/-- What the client makes of the answer to `create_room`. -/
theorem parseCreated_response (code response : Bytes) :
    parseCreated (inviteLine code ++ response) =
      (parseEnrollment response).map fun enrollment => ⟨enrollment, code⟩ := by
  have hline : inviteLine code ++ response =
      joinFields [.word (ascii "INVITE") plain_invite, .escaped code] ++ newline :: response := by
    simp only [inviteLine, joinFields_cons_cons, joinFields_singleton, List.append_assoc]
    rfl
  have hplain : ∀ c ∈ joinFields [.word (ascii "INVITE") plain_invite, .escaped code],
      decide (c ≠ newline) = true := by
    intro c hc
    refine decide_eq_true ?_
    rintro rfl
    exact newline_notMem_joinFields _ hc
  have hmem : newline ∈ joinFields [.word (ascii "INVITE") plain_invite, .escaped code] ++
      newline :: response := List.mem_append_right _ List.mem_cons_self
  rw [parseCreated, hline, if_neg (not_not.mpr hmem),
    List.takeWhile_append_of_pos hplain, List.dropWhile_append_of_pos hplain]
  have hstop : (newline :: response).takeWhile (fun c => decide (c ≠ newline)) = [] := by
    simp
  have hrest : ((newline :: response).dropWhile fun c => decide (c ≠ newline)).drop 1 =
    response := by
    simp
  rw [hstop, hrest, List.append_nil, splitOn_joinFields (List.cons_ne_nil _ _)]
  simp only [List.map_cons, List.map_nil, Field.word, Field.escaped, ne_eq, not_true_eq_false,
    if_false, decodeText_encodeField]
  cases parseEnrollment response with
  | error e => rfl
  | ok enrollment => rfl

theorem lines_drainResponse (recipient : DeviceId) (rows : List Signal) :
    lines (drainResponse recipient rows) =
      ascii "OK" :: (rows.map (fun row => joinFields (signalFields recipient row)) ++
        [ascii "END"]) := by
  have hrows : rows.flatMap (signalLine recipient) =
      (rows.map fun row => joinFields (signalFields recipient row)).flatMap (· ++ [newline]) := by
    rw [List.flatMap_map]
    exact List.flatMap_congr fun row _ => signalLine_eq recipient row
  have hall : drainResponse recipient rows =
      (ascii "OK" :: (rows.map (fun row => joinFields (signalFields recipient row)) ++
        [ascii "END"])).flatMap (· ++ [newline]) := by
    rw [drainResponse, hrows, List.flatMap_cons, List.flatMap_append, List.append_assoc]
    rfl
  rw [hall, lines_flatMap]
  intro text htext
  rcases List.mem_cons.mp htext with rfl | htext
  · decide
  rcases List.mem_append.mp htext with htext | htext
  · obtain ⟨row, -, rfl⟩ := List.mem_map.mp htext
    exact newline_notMem_joinFields _
  · rw [List.mem_singleton.mp htext]
    decide

theorem parseSignals_lines {roomId : Bytes} {recipient : DeviceId} {rows : List Signal}
    (hrows : ∀ row ∈ rows, inRange 32 row.candidateMlineIndex = true ∧ row.roomId = roomId ∧
      row.recipient = recipient) :
    ∃ messages, parseSignals recipient
        (rows.map (fun row => joinFields (signalFields recipient row)) ++ [ascii "END"]) =
          .ok (true, messages) ∧
      messages.map (RelayMessage.message roomId) = rows.map Signal.message := by
  induction rows with
  | nil =>
    refine ⟨[], ?_, rfl⟩
    rw [List.map_nil, List.nil_append, parseSignals, splitOn_end]
    rfl
  | cons row rest ih =>
    obtain ⟨hrange, hroom, hrecipient⟩ := hrows row List.mem_cons_self
    obtain ⟨messages, hrest, hsame⟩ := ih fun other hother =>
      hrows other (List.mem_cons_of_mem _ hother)
    have hsplit : (joinFields (signalFields recipient row)).splitOn tab =
        [ascii "SIGNAL", kindName row.kind, encodeField row.sender, encodeField recipient,
          encodeField row.payload, encodeField row.candidateMid,
            printInt row.candidateMlineIndex] :=
      splitOn_joinFields (List.cons_ne_nil _ _)
    have hkind : readKind (kindName row.kind) = .ok row.kind := by
      rw [readKind, parseKind_kindName]
    have hwide : inRange 64 row.candidateMlineIndex = true := by
      simp only [inRange, Bool.and_eq_true, decide_eq_true_eq] at hrange ⊢
      omega
    have hinteger := parseInteger_printInt hwide "candidate index"
    refine ⟨⟨row.kind, row.sender, recipient, row.payload, row.candidateMid,
      row.candidateMlineIndex,
      hrange⟩ :: messages, ?_, ?_⟩
    · rw [List.map_cons, List.cons_append, parseSignals, hsplit]
      simp only [ne_eq, not_true_eq_false, if_false, decodeText_encodeField, hkind, hinteger, hrest]
      change (if h : inRange 32 row.candidateMlineIndex = true then _ else _) = _
      rw [dif_pos hrange]
      change (if ¬ recipient = recipient then _ else _) = _
      rw [if_neg (not_not.mpr rfl)]
      rfl
    · rw [List.map_cons, List.map_cons, hsame, RelayMessage.message, Signal.message, hroom,
        hrecipient]

/-- **What the client makes of the answer to a drain**: the signals that were drained. -/
theorem parseInbox_response {roomId : Bytes} {recipient : DeviceId} {rows : List Signal}
    (hrows : ∀ row ∈ rows, inRange 32 row.candidateMlineIndex = true ∧ row.roomId = roomId ∧
      row.recipient = recipient) :
    ∃ messages, parseInbox recipient (drainResponse recipient rows) = .ok messages ∧
      messages.map (RelayMessage.message roomId) = rows.map Signal.message := by
  obtain ⟨messages, hparse, hsame⟩ := parseSignals_lines hrows
  refine ⟨messages, ?_, hsame⟩
  rw [parseInbox, lines_drainResponse]
  simp only [ne_eq, not_true_eq_false, if_false, hparse]
  rfl

/-! ## The size of the answers

Escaping makes a byte three bytes at most, so the size of an answer is bounded by the sizes of what
is in it.  The bound is too weak for what a drain can return. -/

/-- The bytes of a member row. -/
def memberLength (member : MemberRow) : Nat :=
  encodedLength member.deviceId + encodedLength member.fingerprint +
    (roleName member.role).length + 10

/-- The bytes of the answer to an enrolment. -/
def enrollmentLength (roomId digest token : Bytes) (expiresAtMs : Int) (members : List MemberRow) :
    Nat :=
  encodedLength roomId + encodedLength digest + encodedLength token +
    (printInt expiresAtMs).length + (members.map memberLength).sum + 19

/-- The bytes of a signal row. -/
def signalLength (recipient : DeviceId) (signal : Signal) : Nat :=
  (kindName signal.kind).length + encodedLength signal.sender + encodedLength recipient +
    encodedLength signal.payload + encodedLength signal.candidateMid +
    (printInt signal.candidateMlineIndex).length + 13

/-- The bytes of the answer to a drain. -/
def drainLength (recipient : DeviceId) (rows : List Signal) : Nat :=
  (rows.map (signalLength recipient)).sum + 7

theorem length_memberLine (member : MemberRow) : (memberLine member).length =
    memberLength member := by
  have htag : (ascii "MEMBER\t").length = 7 := by decide
  simp only [memberLine, List.length_append, List.length_singleton, length_encodeField, htag,
    memberLength]
  omega

theorem length_signalLine (recipient : DeviceId) (signal : Signal) :
    (signalLine recipient signal).length = signalLength recipient signal := by
  have htag : (ascii "SIGNAL\t").length = 7 := by decide
  simp only [signalLine, List.length_append, List.length_singleton, length_encodeField, htag,
    signalLength]
  omega

theorem length_enrollmentResponse (roomId digest token : Bytes) (expiresAtMs : Int)
    (members : List MemberRow) :
    (enrollmentResponse roomId digest token expiresAtMs members).length =
      enrollmentLength roomId digest token expiresAtMs members := by
  have hok : (ascii "OK\t").length = 3 := by decide
  have hmembers : (ascii "\tMEMBERS\n").length = 9 := by decide
  have hend : (ascii "END\n").length = 4 := by decide
  simp only [enrollmentResponse, List.length_append, List.length_singleton, length_encodeField, hok,
    hmembers, hend, List.length_flatMap, length_memberLine, enrollmentLength,
    show (fun member => memberLength member) = memberLength from rfl]
  omega

theorem length_drainResponse (recipient : DeviceId) (rows : List Signal) :
    (drainResponse recipient rows).length = drainLength recipient rows := by
  have hok : (ascii "OK\n").length = 3 := by decide
  have hend : (ascii "END\n").length = 4 := by decide
  simp only [drainResponse, List.length_append, hok, hend, List.length_flatMap, length_signalLine,
    drainLength, show (fun signal => signalLength recipient signal) =
      signalLength recipient from rfl]
  omega

theorem length_inviteLine (code : Bytes) : (inviteLine code).length = encodedLength code + 8 := by
  have htag : (ascii "INVITE\t").length = 7 := by decide
  simp only [inviteLine, List.length_append, List.length_singleton, length_encodeField, htag]
  omega

/-- The order of the members does not matter. -/
theorem enrollmentLength_listMembers (db : Tables) (roomId digest token : Bytes) (expiresAtMs : Int)
    (room' : Bytes) :
    enrollmentLength roomId digest token expiresAtMs (db.listMembers room') =
      enrollmentLength roomId digest token expiresAtMs (db.activeMembers room') := by
  have hperm := ((db.activeMembers room').perm_insertionSort
    fun a b => a.deviceId ≤ b.deviceId).map memberLength
  rw [enrollmentLength, enrollmentLength, Tables.listMembers, hperm.sum_nat]

/-! ## Answers and states -/

/-- **The condition**: the answer that the state calls for is within the limit of the client, and a
session that is handed out expires after the epoch. -/
def Legible (db : Tables) (endpoint : Endpoint) (auth : DeviceAuth) (values : List Bytes)
    (now : Millis) (fresh : Fresh) : Prop :=
  match endpoint, values with
  | .createRoom, [_, _, localRole, _] => ∀ role ∈ parseRole localRole,
      encodedLength fresh.code + 8 + enrollmentLength fresh.roomId (hex fresh.digest) fresh.token
          (expiry now sessionTtlMs) (db.activeMembers fresh.roomId ++
            [Tables.newMember fresh.roomId auth role now]) ≤
        maxTrackerResponse ∧ 0 < expiry now sessionTtlMs
  | .redeemInvitation, [code, _, _] => ∀ invitation ∈ db.findInvitation code,
      ∀ room ∈ db.findRoom invitation.roomId,
        enrollmentLength room.roomId room.authorizationDigest fresh.token (expiry now sessionTtlMs)
            (db.activeMembers room.roomId ++
              [Tables.newMember room.roomId auth invitation.invitedRole now]) ≤
          maxTrackerResponse ∧ 0 < expiry now sessionTtlMs
  | .joinRoom, [roomId, _, _] => ∀ room ∈ db.findRoom roomId,
      enrollmentLength room.roomId room.authorizationDigest fresh.token (expiry now sessionTtlMs)
          (db.activeMembers room.roomId) ≤ maxTrackerResponse ∧ 0 < expiry now sessionTtlMs
  | .drainSignals, [roomId] =>
      drainLength auth.deviceId (db.drainRows roomId auth.deviceId) ≤ maxTrackerResponse
  | _, _ => True

/-- **The property**: the client accepts the answer, in the pieces in which it arrives, and reads in
it what the tracker has stored, or the signals that it has deleted. -/
def Reads (endpoint : Endpoint) (auth : DeviceAuth) (values : List Bytes) (before after : Tables)
    (pieces : List Bytes) : Prop :=
  match endpoint with
  | .createRoom => ∃ created, (readResponse [] pieces >>= parseCreated) = .ok created ∧
      after.lastEnrollment = some created.toTrackerEnrollment ∧
      after.invitations.getLast?.map Invitation.code = some created.invitationCode
  | .redeemInvitation => ∃ enrollment,
    (readResponse [] pieces >>= parseEnrollment) = .ok enrollment ∧
      after.lastEnrollment = some enrollment
  | .joinRoom => ∃ enrollment, (readResponse [] pieces >>= parseEnrollment) = .ok enrollment ∧
      after.lastEnrollment = some enrollment
  | .drainSignals => ∃ messages rows,
      (readResponse [] pieces >>= parseInbox auth.deviceId) = .ok messages ∧
      before.inbox (values.headD []) auth.deviceId =
        rows ++ after.inbox (values.headD []) auth.deviceId ∧
      rows.map Signal.message = messages.map (RelayMessage.message (values.headD []))
  | _ => True

/-- **The invariant** of the rows that get into answers. -/
structure Tables.Presentable (db : Tables) : Prop where
  numbered : db.Numbered
  rooms : ∀ room ∈ db.rooms, room.roomId ≠ [] ∧ room.authorizationDigest.length = 64
  signals : ∀ signal ∈ db.signals, inRange 32 signal.candidateMlineIndex = true

theorem inRange_expiry (now : Millis) (ttl : Int) : inRange 64 (expiry now ttl) = true := by
  have hlower := @Int.le_bmod (now.1 + ttl) (2 ^ 64) (by decide)
  have hupper := @Int.bmod_lt (now.1 + ttl) (2 ^ 64) (by decide)
  rw [inRange, Bool.and_eq_true, decide_eq_true_eq, decide_eq_true_eq, expiry, wrap64]
  omega

/-- The transport passes an answer on, or drops it. -/
theorem readResponse_bind {α : Type} (pieces : List Bytes) (parse : Bytes → Except String α)
    (a : α) :
    (readResponse [] pieces >>= parse) = .ok a ↔
      pieces.flatten.length ≤ maxTrackerResponse ∧ parse pieces.flatten = .ok a := by
  rw [readResponse_eq [] pieces (Nat.zero_le _), List.nil_append]
  by_cases hlength : pieces.flatten.length ≤ maxTrackerResponse
  · rw [if_pos hlength]
    exact (and_iff_right hlength).symm
  · rw [if_neg hlength]
    exact iff_of_false nofun fun h => hlength h.1

/-- An enrolment is read when it is short enough and has not expired before the epoch. -/
theorem reads_enrollment {room : Room} {fresh : Fresh} {now : Millis} {members : List MemberRow}
    {pieces : List Bytes} {stored : TrackerEnrollment}
    (hroom : room.roomId ≠ [] ∧ room.authorizationDigest.length = 64)
    (hpieces : pieces.flatten = enrollmentResponse room.roomId room.authorizationDigest fresh.token
      (expiry now sessionTtlMs) members)
    (hstored : stored = ⟨room.roomId, room.authorizationDigest, fresh.token,
      expiry now sessionTtlMs, members.map MemberRow.member⟩) :
    (∃ enrollment, (readResponse [] pieces >>= parseEnrollment) = .ok enrollment ∧
        some stored = some enrollment) ↔
      enrollmentLength room.roomId room.authorizationDigest fresh.token (expiry now sessionTtlMs)
        members ≤ maxTrackerResponse ∧ 0 < expiry now sessionTtlMs := by
  have hparse := parseEnrollment_response members (inRange_expiry now sessionTtlMs) hroom.1 hroom.2
    fresh.token_ne
  simp only [readResponse_bind, hpieces, length_enrollmentResponse, hparse]
  constructor
  · rintro ⟨enrollment, ⟨hlength, hok⟩, -⟩
    refine ⟨hlength, not_le.mp fun hle => ?_⟩
    rw [if_pos hle] at hok
    cases hok
  · rintro ⟨hlength, hpositive⟩
    refine ⟨stored, ⟨hlength, ?_⟩, rfl⟩
    rw [if_neg (not_le.mpr hpositive), hstored]

theorem length_hex_digest (fresh : Fresh) : (hex fresh.digest).length = 64 := by
  have hlength : ∀ bytes : Bytes, (hex bytes).length = 2 * bytes.length := by
    intro bytes
    induction bytes with
    | nil => rfl
    | cons c rest ih =>
      rw [hex, List.flatMap_cons, List.length_append, List.length_cons]
      rw [hex] at ih
      rw [ih]
      simp only [List.length_cons, List.length_nil]
      omega
  rw [hlength, fresh.digest_length]

namespace Tables

variable {db db' : Tables} {auth : DeviceAuth} {now : Millis} {fresh : Fresh} {answer : Bytes}

/-- The last enrolment of tables with a new session. -/
theorem lastEnrollment_eq {room : Room} {sessions : List Session}
    (hsessions : db.sessions = sessions ++
      [⟨fresh.token, room.roomId, auth.deviceId, expiry now sessionTtlMs⟩])
    (hroom : db.findRoom room.roomId = some room) :
    db.lastEnrollment = some ⟨room.roomId, room.authorizationDigest, fresh.token,
      expiry now sessionTtlMs, (db.listMembers room.roomId).map MemberRow.member⟩ := by
  simp only [lastEnrollment, hsessions, List.getLast?_concat, Option.bind_eq_bind, Option.bind_some,
    hroom]

theorem reads_createRoom {taskId topology localRole invitedRole : Bytes}
    (h : db.createRoom auth taskId topology localRole invitedRole now fresh = .ok (answer, db'))
    {pieces : List Bytes} (hpieces : pieces.flatten = answer) :
    Reads .createRoom auth [taskId, topology, localRole, invitedRole] db db' pieces ↔
      Legible db .createRoom auth [taskId, topology, localRole, invitedRole] now fresh := by
  obtain ⟨known, role, invited, -, hrole, -, -, hnew, -, room, hroom, -, hafter, rfl⟩ :=
    createRoom_eq_ok h
  have hid : room.roomId = fresh.roomId := by rw [hroom]
  have hdigest : room.authorizationDigest = hex fresh.digest := by rw [hroom]
  have hfound : db'.findRoom room.roomId = some room := by
    rw [hafter, hid, findRoom, List.find?_append]
    rw [findRoom] at hnew
    rw [hnew, Option.none_or]
    simp [hid]
  have hmembers : db'.activeMembers fresh.roomId = db.activeMembers fresh.roomId ++
      [newMember fresh.roomId auth role now] := by
    have happend := activeMembers_append db fresh.roomId auth role now fresh.roomId
    rw [if_pos rfl] at happend
    rw [hafter]
    exact happend
  have hsessions : db'.sessions = db.sessions ++
      [⟨fresh.token, room.roomId, auth.deviceId, expiry now sessionTtlMs⟩] := by
    rw [hafter, hid]
  have hcode : db'.invitations.getLast?.map Invitation.code = some fresh.code := by
    rw [hafter, List.getLast?_concat]
    rfl
  have hlast := lastEnrollment_eq hsessions hfound
  have hparse := parseEnrollment_response (db'.listMembers room.roomId)
    (inRange_expiry now sessionTtlMs) fresh.roomId_ne (length_hex_digest fresh) fresh.token_ne
  rw [← hid] at hpieces
  rw [Reads, hlast, hcode]
  simp only [readResponse_bind, hpieces, parseCreated_response, List.length_append,
    length_inviteLine, length_enrollmentResponse, enrollmentLength_listMembers, hmembers, hid,
    hdigest] at hparse ⊢
  rw [hparse]
  constructor
  -- the client takes an answer that is short enough, with a session that expires after the epoch
  · rintro ⟨created, ⟨hlength, hok⟩, -⟩ other hother
    rw [hrole, Option.mem_some_iff] at hother
    subst hother
    refine ⟨hlength, not_le.mp fun hle => ?_⟩
    rw [if_pos hle] at hok
    cases hok
  · intro hlegible
    obtain ⟨hlength, hpositive⟩ := hlegible role hrole
    refine ⟨⟨⟨fresh.roomId, hex fresh.digest, fresh.token, expiry now sessionTtlMs,
      (db'.listMembers fresh.roomId).map MemberRow.member⟩, fresh.code⟩, ⟨hlength, ?_⟩, rfl, rfl⟩
    rw [if_neg (not_le.mpr hpositive)]
    rfl

theorem Presentable.reads_redeemInvitation (hdb : db.Presentable) {code taskId requested : Bytes}
    (h : db.redeemInvitation auth code taskId requested now fresh = .ok (answer, db'))
    {pieces : List Bytes} (hpieces : pieces.flatten = answer) :
    Reads .redeemInvitation auth [code, taskId, requested] db db' pieces ↔
      Legible db .redeemInvitation auth [code, taskId, requested] now fresh := by
  obtain ⟨invitation, room, hinvitation, -, hroom, -, hafter, rfl⟩ := redeemInvitation_eq_ok h
  obtain ⟨hmem, hid⟩ := findRoom_eq_some hroom
  have hfound : db'.findRoom room.roomId = some room := by
    rw [hafter, hid]
    exact hroom
  have hmembers : db'.activeMembers room.roomId = db.activeMembers room.roomId ++
      [newMember room.roomId auth invitation.invitedRole now] := by
    have happend := activeMembers_append db room.roomId auth invitation.invitedRole now room.roomId
    rw [if_pos rfl] at happend
    rw [hafter]
    exact happend
  have hlast := lastEnrollment_eq (congrArg Tables.sessions hafter) hfound
  rw [Reads, hlast, reads_enrollment (hdb.rooms room hmem) hpieces rfl,
    enrollmentLength_listMembers, hmembers]
  constructor
  · rintro hlegible other hother row hrow
    rw [hinvitation, Option.mem_some_iff] at hother
    subst hother
    rw [hroom, Option.mem_some_iff] at hrow
    subst hrow
    exact hlegible
  · exact fun hlegible => hlegible invitation hinvitation room hroom

theorem Presentable.reads_joinRoom (hdb : db.Presentable) {roomId taskId role : Bytes}
    (h : db.joinRoom auth roomId taskId role now fresh = .ok (answer, db'))
    {pieces : List Bytes} (hpieces : pieces.flatten = answer) :
    Reads .joinRoom auth [roomId, taskId, role] db db' pieces ↔
      Legible db .joinRoom auth [roomId, taskId, role] now fresh := by
  obtain ⟨room, member, hroom, -, -, hafter, rfl⟩ := joinRoom_eq_ok h
  obtain ⟨hmem, hid⟩ := findRoom_eq_some hroom
  have hfound : db'.findRoom room.roomId = some room := by
    rw [hafter, hid]
    exact hroom
  have hmembers : db'.activeMembers room.roomId = db.activeMembers room.roomId :=
    by rw [hafter]; rfl
  have hlast := lastEnrollment_eq (congrArg Tables.sessions hafter) hfound
  rw [Reads, hlast, reads_enrollment (hdb.rooms room hmem) hpieces rfl,
    enrollmentLength_listMembers, hmembers]
  constructor
  · rintro hlegible row hrow
    rw [hroom, Option.mem_some_iff] at hrow
    subst hrow
    exact hlegible
  · exact fun hlegible => hlegible room hroom

theorem Presentable.reads_drainSignals (hdb : db.Presentable) {roomId : Bytes}
    {pieces : List Bytes} (hpieces : pieces.flatten = (db.drainSignals auth roomId).1) :
    Reads .drainSignals auth [roomId] db (db.drainSignals auth roomId).2 pieces ↔
      Legible db .drainSignals auth [roomId] now fresh := by
  have hanswer : (db.drainSignals auth roomId).1 =
      drainResponse auth.deviceId (db.drainRows roomId auth.deviceId) := rfl
  have hrows : ∀ row ∈ db.drainRows roomId auth.deviceId,
      inRange 32 row.candidateMlineIndex = true ∧ row.roomId = roomId ∧
        row.recipient = auth.deviceId := by
    intro row hrow
    rw [hdb.numbered.drainRows_eq] at hrow
    have hinbox := List.mem_of_mem_take hrow
    rw [inbox, List.mem_filter, decide_eq_true_eq] at hinbox
    exact ⟨hdb.signals row hinbox.1, hinbox.2⟩
  obtain ⟨messages, hparse, hsame⟩ := parseInbox_response hrows
  rw [Reads, Legible]
  simp only [readResponse_bind, hpieces, hanswer, length_drainResponse, hparse, List.headD_cons]
  constructor
  · rintro ⟨_, _, ⟨hlength, -⟩, -⟩
    exact hlength
  · intro hlength
    refine ⟨messages, db.drainRows roomId auth.deviceId, ⟨hlength, rfl⟩, ?_, hsame.symm⟩
    rw [hdb.numbered.drainRows_eq, hdb.numbered.inbox_drainSignals auth, List.take_append_drop]

theorem inRange_of_messageOf {values : List Bytes} {message : Message}
    (h : messageOf auth values = some message) :
    inRange 32 message.candidateMlineIndex = true := by
  rw [messageOf.eq_def] at h
  split at h
  · split at h
    · rename_i hindex
      cases h
      exact inRange_of_parseInt hindex
    · cases h
  · cases h

theorem mem_of_mem_drainSignals {roomId : Bytes} {signal : Signal}
    (h : signal ∈ (db.drainSignals auth roomId).2.signals) : signal ∈ db.signals := by
  rw [drainSignals] at h
  cases hlast : (db.drainRows roomId auth.deviceId).getLast? with
  | none =>
    rw [hlast] at h
    exact h
  | some last =>
    rw [hlast] at h
    exact List.mem_of_mem_filter h

/-- **An answer is read exactly when it is legible.** -/
theorem Presentable.reads_iff (hdb : db.Presentable) {endpoint : Endpoint} {values : List Bytes}
    (h : Served db auth now fresh endpoint values answer db') {pieces : List Bytes}
    (hpieces : pieces.flatten = answer) :
    Reads endpoint auth values db db' pieces ↔ Legible db endpoint auth values now fresh := by
  cases h with
  | createRoom h => exact reads_createRoom h hpieces
  | createInvitation h => exact iff_of_true trivial trivial
  | redeemInvitation h => exact hdb.reads_redeemInvitation h hpieces
  | joinRoom h => exact hdb.reads_joinRoom h hpieces
  | sendSignal h => exact iff_of_true trivial trivial
  | drainSignals => exact hdb.reads_drainSignals hpieces

/-- The rows that a request leaves are presentable. -/
theorem Presentable.served (hdb : db.Presentable) {endpoint : Endpoint} {values : List Bytes}
    (h : Served db auth now fresh endpoint values answer db') : db'.Presentable := by
  cases h with
  | createRoom h =>
    obtain ⟨_, _, _, -, -, -, -, -, -, room, hroom, -, rfl, -⟩ := createRoom_eq_ok h
    refine ⟨⟨hdb.numbered.sorted, hdb.numbered.le_seq⟩, fun other hother => ?_, hdb.signals⟩
    rcases List.mem_append.mp hother with hother | hother
    · exact hdb.rooms other hother
    · rw [List.mem_singleton.mp hother, hroom]
      exact ⟨fresh.roomId_ne, length_hex_digest fresh⟩
  | createInvitation h =>
    obtain ⟨_, _, _, -, -, -, -, rfl⟩ := createInvitation_eq_ok h
    exact ⟨⟨hdb.numbered.sorted, hdb.numbered.le_seq⟩, hdb.rooms, hdb.signals⟩
  | redeemInvitation h =>
    obtain ⟨_, _, -, -, -, -, rfl, -⟩ := redeemInvitation_eq_ok h
    exact ⟨⟨hdb.numbered.sorted, hdb.numbered.le_seq⟩, hdb.rooms, hdb.signals⟩
  | joinRoom h =>
    obtain ⟨_, _, -, -, -, rfl, -⟩ := joinRoom_eq_ok h
    exact ⟨⟨hdb.numbered.sorted, hdb.numbered.le_seq⟩, hdb.rooms, hdb.signals⟩
  | sendSignal h =>
    obtain ⟨message, hmessage, signal, hsignal, hid, rfl⟩ := sendSignal_eq_ok h
    refine ⟨hdb.numbered.append hid, hdb.rooms, fun other hother => ?_⟩
    rcases List.mem_append.mp hother with hother | hother
    · exact hdb.signals other hother
    · rw [List.mem_singleton.mp hother]
      have hindex := inRange_of_messageOf hmessage
      rw [← hsignal] at hindex
      exact hindex
  | drainSignals =>
    obtain ⟨signals, hdrained⟩ := db.drainSignals_signals auth _
    refine ⟨hdb.numbered.drainSignals auth, ?_, fun signal hsignal => ?_⟩
    · rw [hdrained]
      exact hdb.rooms
    · exact hdb.signals signal (mem_of_mem_drainSignals hsignal)

end Tables

/-! ## Runs

The invariant is that everything in the tables has passed the handlers.  It is what makes every
answer well formed, so that only its size is left to worry about. -/

namespace Server

theorem presentable_start (clock : Millis) : (start clock).db.Presentable :=
  ⟨⟨List.Pairwise.nil, fun _ h => absurd h List.not_mem_nil⟩,
    fun _ h => absurd h List.not_mem_nil, fun _ h => absurd h List.not_mem_nil⟩

/-- **One step** keeps the rows presentable.  Handlers store only what has passed their own
checks. -/
theorem presentable_step (P : Primitives) (s : Server) (action : Action) (h : s.db.Presentable) :
    (step P s action).db.Presentable := by
  rcases step_cases P s action with hquiet | ⟨call, -, values, now, fresh, answer, -, hworked⟩
  · obtain ⟨nonces, hdb⟩ := hquiet.db
    rw [hdb]
    exact ⟨⟨h.numbered.sorted, h.numbered.le_seq⟩, h.rooms, h.signals⟩
  · exact h.served hworked.served

/-- The property of a step: if it answers a request with success, the client reads the answer. -/
def StepReads (P : Primitives) (s : Server) (action : Action) : Prop :=
  ∀ call values now fresh answer, Worked s (step P s action) call values now fresh answer →
    ∀ pieces : List Bytes, pieces.flatten = answer →
      Reads call.request.endpoint call.checked.auth values s.db (step P s action).db pieces

/-- The condition on a step. -/
def StepLegible (P : Primitives) (s : Server) (action : Action) : Prop :=
  ∀ call values now fresh answer, Worked s (step P s action) call values now fresh answer →
    Legible s.db call.request.endpoint call.checked.auth values now fresh

theorem stepReads_iff {P : Primitives} {s : Server} {action : Action} (h : s.db.Presentable) :
    s.StepReads P action ↔ s.StepLegible P action := by
  constructor
  · intro hreads call values now fresh answer hworked
    exact (h.reads_iff hworked.served (List.flatten_singleton)).mp
      (hreads call values now fresh answer hworked [answer] List.flatten_singleton)
  · intro hlegible call values now fresh answer hworked pieces hpieces
    exact (h.reads_iff hworked.served hpieces).mpr (hlegible call values now fresh answer hworked)

end Server

/-- **The client reads the answers that are legible, and no others.**  In every run of the tracker,
at every step that answers a request with success: the client accepts the answer, however it is cut
into pieces, and reads in it the room, the digest, the session and the members that the tracker has
stored or the signals that it has deleted, exactly when the answer is within the limit of the client
and the session expires after the epoch. -/
theorem client_reads_iff_legible (P : Primitives) (clock : Millis) (actions : List Server.Action) :
    Run.Along (Server.step P) (fun s action => s.StepReads P action ↔ s.StepLegible P action)
      (.start clock) actions := by
  refine Run.along_of_invariant (P := fun _ _ => True) (I := fun s => s.db.Presentable)
    (fun s action _ h => ⟨Server.stepReads_iff h, Server.presentable_step P s action h⟩) actions _
    (Run.along_of_forall fun _ _ => trivial) (Server.presentable_start clock)

/-! ### Six payloads of 64 KiB

Two devices of one room, and six messages from the one to the other that the tracker accepts and
the client cannot read back.  Both devices are honest: their keys decode, their fingerprints belong
to their keys, and they have signed what they send. -/

/-- The libraries, for devices that sign what they send.

In the run below they are asked few things, and here is why the answers are those of the real ones.
`decodeBase64` is asked only for the two headers that hold a key and a signature; one byte stands
for the text of a key, every other text for a signature, and they decode to 32 and to 64 bytes as
the real ones do.  `blake3` is asked for the fingerprint of a key, where all that matters is that it
has 32 bytes and that the two devices have different ones, and for the hash of a body, which is only
used inside of the text that has been signed.  `isVerifyingKey` and `verify` are asked only for keys
of the devices and for signatures the devices have made with them. -/
def trusting : Primitives where
  decodeBase64 text :=
    if text.length = 1 then some (List.replicate 32 (text.headD 0)) else some (List.replicate 64 0)
  blake3 bytes := if bytes.length = 32 then bytes else List.replicate 32 0
  isVerifyingKey _ := true
  verify _ _ _ := true

/-- The identity of the device with the given key. -/
def deviceAuth (key : UInt8) : DeviceAuth :=
  ⟨hex (List.replicate 16 key), [key], hex (List.replicate 32 key)⟩

/-- A request that the device signs, in the first second of the epoch. -/
def signedRequest (key : UInt8) (endpoint : Endpoint) (session : Option Bytes) (nonce : Nat)
    (body : Bytes) : Request :=
  ⟨endpoint, ⟨some (deviceAuth key).deviceId, some [key], some (ascii "0"),
    some (List.replicate (nonce + 1) 48), some (ascii "signature"), session⟩, body⟩

theorem epoch_lt : 0 < 2 ^ 63 := by decide

/-- The epoch. -/
def epoch : Millis := ⟨0, epoch_lt⟩

theorem length_deviceId (key : UInt8) : (deviceAuth key).deviceId.length = 32 := rfl

theorem bind_ok {α β : Type} {x : Except ApiError α} {a : α} (h : x = .ok a)
    (k : α → Except ApiError β) : (x >>= k) = k a := by
  rw [h]
  rfl

theorem checkRequest_signedRequest (key : UInt8) (endpoint : Endpoint) (session : Option Bytes)
    {nonce : Nat} (hnonce : nonce < 80) (body : Bytes) :
    checkRequest trusting (signedRequest key endpoint session nonce body) epoch =
      .ok ⟨deviceAuth key, ascii "0", 0, List.replicate (nonce + 1) 48⟩ := by
  have hmeta : ¬ ((List.replicate (nonce + 1) (48 : UInt8)).length > 80 ∨
      (deviceAuth key).deviceId.length ≠ 32) := by
    rw [List.length_replicate, length_deviceId]
    omega
  have hstamp : header (some (ascii "0")) "x-veritassync-timestamp" = .ok (ascii "0") := by decide
  have hsigned : header (some (ascii "signature")) "x-veritassync-signature" =
      .ok (ascii "signature") := by decide
  have hparse : parseInt 64 (ascii "0") = some 0 := by decide
  have hwindow : ¬ (!inWindow epoch 0) = true := by decide
  have hkey : trusting.decodeBase64 [key] = some (List.replicate 32 key) := rfl
  have hsignature : trusting.decodeBase64 (ascii "signature") = some (List.replicate 64 0) := by
    decide
  have hdevice : ¬ hex ((trusting.blake3 (List.replicate 32 key)).take 16) ≠
      (deviceAuth key).deviceId := not_not.mpr rfl
  unfold checkRequest
  refine (bind_ok (show header _ _ = .ok (deviceAuth key).deviceId from rfl) _).trans ?_
  refine (bind_ok (show header _ _ = .ok [key] from rfl) _).trans ?_
  refine (bind_ok hstamp _).trans ?_
  refine (bind_ok (show header _ _ = .ok (List.replicate (nonce + 1) 48) from rfl) _).trans ?_
  refine (bind_ok hsigned _).trans ?_
  refine (if_neg hmeta).trans ?_
  simp only [hparse]
  refine (if_neg hwindow).trans ?_
  simp only [hkey]
  refine (if_neg (not_not.mpr List.length_replicate)).trans ?_
  refine (if_neg hdevice).trans ?_
  simp only [hsignature]
  refine (if_neg (not_not.mpr List.length_replicate)).trans ?_
  refine (if_neg nofun).trans ?_
  refine (if_neg nofun).trans ?_
  rfl

/-- A request with a session, up to the work of its handler. -/
def approach (request : Request) (fresh : Fresh) : List Server.Action :=
  [.arrive request epoch, .advance 0 epoch epoch fresh, .advance 0 epoch epoch fresh]

namespace Server

theorem run_approach {P : Primitives} {s : Server} {request : Request} {checked : Checked}
    {db' : Tables} {values : List Bytes} {token : Bytes} (fresh : Fresh) (hcalls : s.calls = [])
    (hclock : s.clock = epoch) (hcheck : checkRequest P request epoch = .ok checked)
    (hnonce : s.db.recordNonce checked.auth.deviceId checked.nonce epoch epoch = (.ok (), db'))
    (hfields : fields request.body request.endpoint.fieldCount = .ok values)
    (hneeds : request.endpoint.needsSession = true)
    (htoken : header request.headers.session "x-veritassync-session" = .ok token)
    (hauthorized : db'.authorizeSession token checked.auth (values.headD []) epoch = .ok ()) :
    ∃ trace, Run.run (step P) s (approach request fresh) =
      ⟨db', epoch, [⟨request, checked, epoch, .work values⟩], trace⟩ := by
  obtain ⟨db, clock, calls, trace⟩ := s
  subst hcalls hclock
  have htick : ∀ s : Server, s.clock = epoch → s.tick epoch = epoch := by
    intro s hs
    rw [tick, hs, max_self]
  have harrive : step P ⟨db, epoch, [], trace⟩ (.arrive request epoch) =
      ⟨db, epoch, [⟨request, checked, epoch, .nonce⟩], trace⟩ := by
    rw [step, htick _ rfl]
    simp only [hcheck]
    rfl
  have hfirst : step P ⟨db, epoch, [⟨request, checked, epoch, .nonce⟩], trace⟩
      (.advance 0 epoch epoch fresh) = ⟨db', epoch, [⟨request, checked, epoch, .session values⟩],
        { trace with accepted := trace.accepted ++ [⟨request, checked, epoch, .nonce⟩] }⟩ := by
    rw [step, htick _ rfl]
    simp only [List.getElem?_cons_zero, List.eraseIdx_cons_zero, max_self]
    rw [stepNonce]
    simp only [hnonce, hfields, hneeds, if_true]
    rfl
  have hsecond : ∀ trace, step P ⟨db', epoch, [⟨request, checked, epoch, .session values⟩], trace⟩
      (.advance 0 epoch epoch fresh) =
        ⟨db', epoch, [⟨request, checked, epoch, .work values⟩], trace⟩ := by
    intro trace
    rw [step, htick _ rfl]
    simp only [List.getElem?_cons_zero, List.eraseIdx_cons_zero, max_self]
    rw [stepSession]
    simp only [htoken, hauthorized]
    rfl
  rw [approach, Run.run_cons, harrive, Run.run_cons, hfirst, Run.run_cons, hsecond, Run.run_nil]
  exact ⟨_, rfl⟩

/-- The work of a handler that succeeds. -/
theorem worked_of_serve (P : Primitives) {db db' : Tables} {auth : DeviceAuth} {values : List Bytes}
    {fresh : Fresh} {answer : Bytes} (request : Request) (checked : Checked) (trace : Trace)
    (hauth : checked.auth = auth)
    (hserve : serve db request.endpoint auth values epoch fresh = .ok (answer, db')) :
    Worked ⟨db, epoch, [⟨request, checked, epoch, .work values⟩], trace⟩
        (step P ⟨db, epoch, [⟨request, checked, epoch, .work values⟩], trace⟩
          (.advance 0 epoch epoch fresh)) ⟨request, checked, epoch, .work values⟩ values epoch fresh
        answer ∧
      ∃ trace', step P ⟨db, epoch, [⟨request, checked, epoch, .work values⟩], trace⟩
        (.advance 0 epoch epoch fresh) = ⟨db', epoch, [], trace'⟩ := by
  subst hauth
  have hstep : step P ⟨db, epoch, [⟨request, checked, epoch, .work values⟩], trace⟩
      (.advance 0 epoch epoch fresh) =
        (⟨db', epoch, [], record trace request.endpoint checked.auth values db⟩ : Server).reply
          request
          (.ok answer) := by
    rw [step, tick]
    simp only [List.getElem?_cons_zero, List.eraseIdx_cons_zero, max_self]
    rw [stepWork]
    simp only [hserve]
  rw [hstep]
  exact ⟨⟨served hserve, rfl, rfl, rfl, congrArg (· ++ _) (record_replies _ _ _ _ _)⟩, _, rfl⟩

end Server

/-- 64 KiB of percent signs, which are written as three times that. -/
@[irreducible] def largePayload : Bytes := List.replicate (64 * 1024) percent

theorem largeMessage_inRange : inRange 32 (-1) = true := by decide

/-- The first device sends them to the second. -/
def largeMessage : RelayMessage :=
  ⟨.offer, (deviceAuth 1).deviceId, (deviceAuth 2).deviceId, largePayload, [], -1,
    largeMessage_inRange⟩

theorem lossRoom_ne : ascii "room" ≠ [] := by decide
theorem lossDigest_length : (List.replicate 32 (0 : UInt8)).length = 32 := List.length_replicate

/-- The random values of the first device, and of the second. -/
def lossFresh (token : UInt8) : Fresh :=
  ⟨ascii "room", ascii "code", List.replicate 32 0, [token], lossRoom_ne, List.cons_ne_nil _ _,
    lossDigest_length⟩

/-- The first device creates a room for two peers, and the second redeems the invitation. -/
def enrolPeers : List Server.Action :=
  [.arrive (signedRequest 1 .createRoom none 0 (ascii "task\tbidirectional\tpeer\tpeer")) epoch,
    .advance 0 epoch epoch (lossFresh 97), .advance 0 epoch epoch (lossFresh 97),
    .arrive (signedRequest 2 .redeemInvitation none 1 (ascii "code\ttask\tpeer")) epoch,
    .advance 0 epoch epoch (lossFresh 98), .advance 0 epoch epoch (lossFresh 98)]

/-- The first device sends the message. -/
def sendLarge (nonce : Nat) : List Server.Action :=
  approach (signedRequest 1 .sendSignal (some [97]) nonce (forwardBody (ascii "room") largeMessage))
      (lossFresh 97) ++ [.advance 0 epoch epoch (lossFresh 97)]

/-- Two peers are in the room, and some messages are stored for the second. -/
structure Loaded (s : Server) (count : Nat) : Prop where
  calls : s.calls = []
  clock : s.clock = epoch
  nonces : ∀ row ∈ s.db.nonces, row.nonce.length ≤ count + 2 ∧ ¬ row.expiresAtMs < 0
  sender : s.db.authorizeSession [97] (deviceAuth 1) (ascii "room") epoch = .ok ()
  recipient : s.db.authorizeSession [98] (deviceAuth 2) (ascii "room") epoch = .ok ()
  room : (s.db.findRoom (ascii "room")).map Room.topology = some .bidirectional
  senderRole : s.db.activeRole (ascii "room") (deviceAuth 1).deviceId = some .peer
  recipientRole : s.db.activeRole (ascii "room") (deviceAuth 2).deviceId = some .peer
  seq : s.db.signalSeq = count
  stored : (s.db.inbox (ascii "room") (deviceAuth 2).deviceId).map Signal.payload =
    List.replicate count largePayload

theorem loaded_zero : Loaded (Run.run (Server.step trusting) (.start epoch) enrolPeers) 0 := by
  refine ⟨?_, ?_, ?_, ?_, ?_, ?_, ?_, ?_, ?_, ?_⟩ <;> decide +kernel

theorem encodedLength_largePayload : encodedLength largePayload = 3 * (64 * 1024) := by
  have hreplicate : ∀ n, encodedLength (List.replicate n percent) = 3 * n := by
    intro n
    rw [encodedLength, List.map_replicate, isPlain_percent]
    induction n with
    | zero => rfl
    | succ n ih =>
      rw [List.replicate_succ, List.sum_cons, ih]
      simp only [Bool.false_eq_true, if_false]
      omega
  rw [largePayload, hreplicate]

theorem length_largePayload : largePayload.length = 64 * 1024 := by
  rw [largePayload, List.length_replicate]

theorem largePayload_ne : largePayload ≠ [] := by
  rw [← List.length_pos_iff, length_largePayload]
  omega

theorem validUtf8_largePayload : validUtf8 largePayload = true := by
  refine validUtf8_of_ascii fun c hc => ?_
  rw [largePayload] at hc
  rw [List.eq_of_mem_replicate hc]
  decide

theorem length_forwardBody (roomId : Bytes) (message : RelayMessage) :
    (forwardBody roomId message).length = encodedLength roomId + (kindName message.kind).length +
      encodedLength message.recipientDeviceId + encodedLength message.payload +
      encodedLength message.candidateMid + (printInt message.candidateMlineIndex).length + 5 := by
  simp only [forwardBody, List.length_append, List.length_singleton, length_encodeField]
  omega

theorem deliverable_largeMessage : Deliverable (ascii "room") largeMessage := by
  refine ⟨by decide +kernel, by decide +kernel, validUtf8_largePayload, rfl, ?_⟩
  have hroom : encodedLength (ascii "room") = 4 := by decide
  have hrecipient : encodedLength largeMessage.recipientDeviceId = 32 := by decide +kernel
  have hlarge : encodedLength largeMessage.payload = 3 * (64 * 1024) := encodedLength_largePayload
  have hmid : encodedLength largeMessage.candidateMid = 0 := rfl
  have hkind : (kindName largeMessage.kind).length = 5 := by decide
  have hindex : (printInt largeMessage.candidateMlineIndex).length = 2 := by decide
  rw [length_forwardBody, hroom, hrecipient, hlarge, hmid, hkind, hindex]
  decide

/-- The tables with one more nonce. -/
def nonced (db : Tables) (deviceId : DeviceId) (count : Nat) (expiresAtMs : Int) : Tables :=
  { db with nonces := db.nonces ++ [⟨deviceId, List.replicate (count + 2 + 1) 48, expiresAtMs⟩] }

/-- The tables with one more message. -/
def sent (db : Tables) : Tables :=
  { db with
    signals := db.signals ++ [newSignal db (ascii "room") largeMessage epoch]
    signalSeq := db.signalSeq + 1 }

theorem serve_sendSignal (db : Tables) (auth : DeviceAuth)
    (roomId kind recipient payload mid index : Bytes) (now : Millis) (fresh : Fresh) :
    serve db .sendSignal auth [roomId, kind, recipient, payload, mid, index] now fresh =
      db.sendSignal auth roomId kind recipient payload mid index now := rfl

theorem serve_drainSignals (db : Tables) (auth : DeviceAuth) (roomId : Bytes) (now : Millis)
    (fresh : Fresh) :
    serve db .drainSignals auth [roomId] now fresh = .ok (db.drainSignals auth roomId) := rfl

theorem inbox_sent (db : Tables) :
    (sent db).inbox (ascii "room") (deviceAuth 2).deviceId =
      db.inbox (ascii "room") (deviceAuth 2).deviceId ++
        [newSignal db (ascii "room") largeMessage epoch] := by
  rw [Tables.inbox, sent, List.filter_append]
  refine congrArg (_ ++ ·) (List.filter_eq_self.mpr fun signal hsignal => ?_)
  rw [List.mem_singleton.mp hsignal]
  exact decide_eq_true ⟨rfl, rfl⟩

theorem header_some {text : Bytes} (h : text ≠ []) (name : String) :
    header (some text) name = .ok text := by
  cases text with
  | nil => exact absurd rfl h
  | cons c rest => rfl

namespace Loaded

variable {s : Server} {count : Nat}

/-- A nonce that is longer than those that are stored is stored. -/
theorem recordNonce (h : Loaded s count) (deviceId : DeviceId) :
    ∃ expiresAtMs : Int, ¬ expiresAtMs < 0 ∧
      s.db.recordNonce deviceId (List.replicate (count + 2 + 1) 48) epoch epoch =
        (.ok (), nonced s.db deviceId count expiresAtMs) := by
  have hkept : s.db.nonces.filter (fun row => ¬ row.expiresAtMs < (epoch.1 : Int)) = s.db.nonces :=
    List.filter_eq_self.mpr fun row hrow => decide_eq_true (h.nonces row hrow).2
  have hnew : ¬ (s.db.nonces.any fun row =>
      row.deviceId = deviceId ∧ row.nonce = List.replicate (count + 2 + 1) 48) = true := by
    rw [List.any_eq_true]
    rintro ⟨row, hrow, hsame⟩
    have hlength := (h.nonces row hrow).1
    rw [(of_decide_eq_true hsame).2, List.length_replicate] at hlength
    omega
  refine ⟨expiry epoch (signatureSkewSeconds * 2 * 1000), by decide, ?_⟩
  rw [Tables.recordNonce]
  simp only [hkept, if_neg hnew]
  rfl

theorem nonces_nonced (h : Loaded s count) (deviceId : DeviceId) {expiresAtMs : Int}
    (hexpires : ¬ expiresAtMs < 0) :
    ∀ row ∈ (nonced s.db deviceId count expiresAtMs).nonces,
      row.nonce.length ≤ count + 1 + 2 ∧ ¬ row.expiresAtMs < 0 := by
  intro row hrow
  rcases List.mem_append.mp hrow with hrow | hrow
  · have hold := h.nonces row hrow
    exact ⟨by omega, hold.2⟩
  · rw [List.mem_singleton.mp hrow]
    exact ⟨List.length_replicate.le, hexpires⟩

/-- A request gets to the work of its handler. -/
theorem approach (h : Loaded s count) (hcount : count < 10) (key : UInt8) (endpoint : Endpoint)
    (token body : Bytes) {values : List Bytes} (fresh : Fresh) (htoken : token ≠ [])
    (hneeds : endpoint.needsSession = true)
    (hfields : fields body endpoint.fieldCount = .ok values)
    (hauthorized : s.db.authorizeSession token (deviceAuth key) (values.headD []) epoch = .ok ()) :
    ∃ expiresAtMs : Int, ¬ expiresAtMs < 0 ∧ ∃ trace checked, checked.auth = deviceAuth key ∧
      Run.run (Server.step trusting) s
          (Tracker.approach (signedRequest key endpoint (some token) (count + 2) body) fresh) =
        ⟨nonced s.db (deviceAuth key).deviceId count expiresAtMs, epoch,
          [⟨signedRequest key endpoint (some token) (count + 2) body, checked, epoch,
            .work values⟩], trace⟩ := by
  have hcheck := checkRequest_signedRequest key endpoint (some token)
    (show count + 2 < 80 by omega) body
  obtain ⟨expiresAtMs, hexpires, hnonce⟩ := h.recordNonce (deviceAuth key).deviceId
  obtain ⟨trace, hrun⟩ := Server.run_approach fresh h.calls h.clock hcheck hnonce hfields hneeds
    (header_some htoken _) hauthorized
  exact ⟨expiresAtMs, hexpires, trace, _, rfl, hrun⟩

/-- The message is accepted. -/
theorem serve_large (h : Loaded s count) (hcount : count < 10) (expiresAtMs : Int) (fresh : Fresh) :
    serve (nonced s.db (deviceAuth 1).deviceId count expiresAtMs) .sendSignal (deviceAuth 1)
        [ascii "room", kindName largeMessage.kind, largeMessage.recipientDeviceId,
          largeMessage.payload, largeMessage.candidateMid,
          printInt largeMessage.candidateMlineIndex] epoch fresh =
      .ok (ascii "OK\n", sent (nonced s.db (deviceAuth 1).deviceId count expiresAtMs)) := by
  obtain ⟨row, hrow, htopology⟩ := Option.map_eq_some_iff.mp h.room
  have hother : largeMessage.recipientDeviceId ≠ largeMessage.senderDeviceId := by decide +kernel
  have hshort : largeMessage.payload.length ≤ maxSignalPayload := length_largePayload.le
  have hallowed : relayAllowed row.topology .peer .peer largeMessage.kind = true := by
    rw [htopology]
    rfl
  have hseq : (nonced s.db (deviceAuth 1).deviceId count expiresAtMs).signalSeq < maxSignalId := by
    change s.db.signalSeq < maxSignalId
    rw [h.seq, maxSignalId]
    omega
  rw [serve_sendSignal]
  exact (@Tables.sendSignal_relays (nonced _ _ _ _) _ _ _ _ largeMessage _ _ hrow rfl hseq).mpr
    ⟨⟨hother, largePayload_ne, hshort, .peer, h.senderRole, .peer, h.recipientRole,
      hallowed⟩, rfl, rfl⟩

/-- One more message is stored. -/
theorem send (h : Loaded s count) (hcount : count < 10) :
    Loaded (Run.run (Server.step trusting) s (sendLarge (count + 2))) (count + 1) := by
  obtain ⟨expiresAtMs, hexpires, trace, checked, hauth, happroach⟩ := h.approach hcount 1
    .sendSignal [97] (forwardBody (ascii "room") largeMessage) (lossFresh 97) (List.cons_ne_nil _ _)
    rfl (fields_forwardBody deliverable_largeMessage) h.sender
  obtain ⟨-, trace', hstep⟩ := Server.worked_of_serve trusting
    (signedRequest 1 .sendSignal (some [97]) (count + 2) (forwardBody (ascii "room") largeMessage))
    checked trace hauth (h.serve_large hcount expiresAtMs (lossFresh 97))
  rw [sendLarge, Run.run_append, happroach, Run.run_cons, hstep, Run.run_nil]
  refine ⟨rfl, rfl, h.nonces_nonced _ hexpires, h.sender, h.recipient, h.room, h.senderRole,
    h.recipientRole, ?_, ?_⟩
  · exact congrArg (· + 1) h.seq
  · rw [inbox_sent, List.map_append, List.replicate_succ']
    exact congrArg (· ++ _) h.stored

/-- The answer to a drain of six messages is too large. -/
theorem not_legible (h : Loaded s 6) (hnumbered : s.db.Numbered) (expiresAtMs : Int)
    (fresh : Fresh) :
    ¬ Legible (nonced s.db (deviceAuth 2).deviceId 6 expiresAtMs) .drainSignals (deviceAuth 2)
      [ascii "room"] epoch fresh := by
  have hrows : (nonced s.db (deviceAuth 2).deviceId 6 expiresAtMs).drainRows (ascii "room")
      (deviceAuth 2).deviceId = s.db.inbox (ascii "room") (deviceAuth 2).deviceId := by
    change s.db.drainRows (ascii "room") (deviceAuth 2).deviceId = _
    have hlength := congrArg List.length h.stored
    rw [List.length_map, List.length_replicate] at hlength
    rw [hnumbered.drainRows_eq, List.take_of_length_le]
    rw [hlength, maxDrainSignals]
    omega
  have hlarge : ∀ (recipient : DeviceId) (rows : List Signal) (count : Nat),
      rows.map Signal.payload = List.replicate count largePayload →
        3 * (64 * 1024) * count ≤ (rows.map (signalLength recipient)).sum := by
    intro recipient rows count
    induction rows generalizing count with
    | nil =>
      intro hpayloads
      obtain rfl : count = 0 := by simpa using (congrArg List.length hpayloads).symm
      exact Nat.zero_le _
    | cons row rest ih =>
      intro hpayloads
      cases count with
      | zero => cases hpayloads
      | succ count =>
        rw [List.replicate_succ, List.map_cons, List.cons.injEq] at hpayloads
        have hrest := ih count hpayloads.2
        have hrow : 3 * (64 * 1024) ≤ signalLength recipient row := by
          rw [signalLength, hpayloads.1, encodedLength_largePayload]
          omega
        rw [List.map_cons, List.sum_cons]
        omega
  intro hlegible
  rw [Legible, drainLength, hrows, maxTrackerResponse] at hlegible
  have hsum := hlarge (deviceAuth 2).deviceId _ 6 h.stored
  omega

end Loaded

/-- The second device drains its inbox. -/
def drainRequest : Request := signedRequest 2 .drainSignals (some [98]) 8 (ascii "room")

/-- Two peers enrol, the first sends six messages, and the second drains its inbox. -/
def lossRun : List Server.Action :=
  enrolPeers ++ (List.range 6).flatMap (fun count => sendLarge (count + 2)) ++
    approach drainRequest (lossFresh 98) ++ [.advance 0 epoch epoch (lossFresh 98)]

theorem loaded_sends (count : Nat) (hcount : count ≤ 10) :
    Loaded (Run.run (Server.step trusting) (.start epoch)
      (enrolPeers ++ (List.range count).flatMap fun count => sendLarge (count + 2))) count := by
  induction count with
  | zero =>
    rw [List.range_zero, List.flatMap_nil, List.append_nil]
    exact loaded_zero
  | succ count ih =>
    rw [List.range_succ, List.flatMap_append, List.flatMap_singleton, ← List.append_assoc,
      Run.run_append]
    exact (ih (by omega)).send (by omega)

/-- The client does not read the answer to the drain. -/
theorem Loaded.lost {s : Server} (h : Loaded s 6) (hpresentable : s.db.Presentable) :
    ¬ Run.Along (Server.step trusting) (Server.StepReads trusting) s
      (Tracker.approach drainRequest (lossFresh 98) ++
        [.advance 0 epoch epoch (lossFresh 98)]) := by
  have hfields : fields (ascii "room") Endpoint.drainSignals.fieldCount = .ok [ascii "room"] := by
    decide +kernel
  obtain ⟨expiresAtMs, -, trace, checked, hauth, happroach⟩ := h.approach (by decide) 2
    .drainSignals [98] (ascii "room") (lossFresh 98) (List.cons_ne_nil _ _) rfl hfields h.recipient
  intro halong
  rw [Run.along_append, drainRequest, happroach] at halong
  obtain ⟨hworked, -⟩ := Server.worked_of_serve trusting drainRequest checked trace hauth
    (serve_drainSignals (nonced s.db (deviceAuth 2).deviceId 6 expiresAtMs) (deviceAuth 2)
      (ascii "room") epoch (lossFresh 98))
  have hnonced : (nonced s.db (deviceAuth 2).deviceId 6 expiresAtMs).Presentable :=
    ⟨⟨hpresentable.numbered.sorted, hpresentable.numbered.le_seq⟩, hpresentable.rooms,
      hpresentable.signals⟩
  have hreads := halong.2.1 _ _ _ _ _ hworked _ List.flatten_singleton
  have hlegible := (hnonced.reads_iff hworked.served List.flatten_singleton).mp hreads
  change Legible _ .drainSignals checked.auth _ _ _ at hlegible
  rw [hauth] at hlegible
  exact h.not_legible hpresentable.numbered expiresAtMs (lossFresh 98) hlegible

/-- **Signals are lost.**  The answer to the drain is above the limit of the client, and the tracker
has deleted the six messages. -/
theorem six_messages_lost :
    ¬ Run.Along (Server.step trusting) (Server.StepReads trusting) (.start epoch) lossRun := by
  have hloaded := loaded_sends 6 (by decide)
  have hpresentable := Run.run_invariant_all (I := fun s : Server => s.db.Presentable)
    (Server.presentable_step trusting)
    (enrolPeers ++ (List.range 6).flatMap fun count => sendLarge (count + 2))
    (Server.presentable_start epoch)
  intro halong
  rw [lossRun, List.append_assoc, Run.along_append] at halong
  exact hloaded.lost hpresentable halong.2

end Tracker

end VeritasSync
