import VeritasSync.Tracker.FieldCodec

/-!
# Invitation tokens

The token that one user gives to another is a line of seven encoded fields with bars between them.
`ParseInvitation` splits it, decodes the fields and checks them.

A field of a token may contain anything, bars included, since it is encoded before the fields are
put together.  The parser splits first and decodes afterwards.  It is the third splitter of the
protocol, beside those of the client and of the tracker, and the third separator; that all of them
can be used on text from the one encoder is what the last theorem is about.

## What is here

* `invitationToken`, `parseInvitation` — the two functions of `PairingService`.
* `parseInvitation_invitationToken` — **a token is parsed to the invitation it was made of**, if
  that passes the checks, and is refused otherwise.
* `tracker_field_codec` — **every encoder, decoder and splitter of the protocol fits every other**.
-/

set_option autoImplicit false

namespace VeritasSync

open Tracker

/-- The separator of a token. -/
def bar : UInt8 := '|'.toUInt8

/-- `ParsedInvitation`: what one user tells the other. -/
structure ParsedInvitation where
  trackerUrl : Bytes
  taskId : Bytes
  topology : Bytes
  invitedRole : Bytes
  code : Bytes
  creatorDeviceId : Bytes
  creatorFingerprint : Bytes
  deriving DecidableEq

/-- The checks of `ParseInvitation`. -/
def ParsedInvitation.Malformed (invitation : ParsedInvitation) : Prop :=
  invitation.trackerUrl = [] ∨ invitation.taskId = [] ∨ invitation.code = [] ∨
    invitation.creatorDeviceId.length ≠ 32 ∨ invitation.creatorFingerprint.length ≠ 64 ∨
    (invitation.topology = ascii "one_way" ∧ invitation.invitedRole ≠ ascii "target" ∨
      invitation.topology = ascii "bidirectional" ∧ invitation.invitedRole ≠ ascii "peer" ∨
      invitation.topology ≠ ascii "one_way" ∧ invitation.topology ≠ ascii "bidirectional")

instance (invitation : ParsedInvitation) : Decidable invitation.Malformed :=
  inferInstanceAs (Decidable (_ ∨ _))

/-- `InvitationToken`: a word that names the format, and the fields, with bars between them. -/
def invitationToken (invitation : ParsedInvitation) : Bytes :=
  ascii "VSINVITE1|" ++ TrackerClient.encodeField invitation.trackerUrl ++ [bar] ++
    TrackerClient.encodeField invitation.taskId ++ [bar] ++
    TrackerClient.encodeField invitation.topology ++ [bar] ++
    TrackerClient.encodeField invitation.invitedRole ++ [bar] ++
    TrackerClient.encodeField invitation.code ++ [bar] ++
    TrackerClient.encodeField invitation.creatorDeviceId ++ [bar] ++
    TrackerClient.encodeField invitation.creatorFingerprint

/-- `PairingService::ParseInvitation`: it splits, decodes and checks, in this order. -/
def parseInvitation (token : Bytes) : Except Error ParsedInvitation :=
  match Percent.splitFields bar token with
  | [tag, trackerUrl, taskId, topology, invitedRole, code, creatorDeviceId, creatorFingerprint] =>
    if tag ≠ ascii "VSINVITE1" then .error (.invalidArgument "invitation token is invalid")
    else do
      let trackerUrl ← TrackerClient.decodeField trackerUrl
      let taskId ← TrackerClient.decodeField taskId
      let topology ← TrackerClient.decodeField topology
      let invitedRole ← TrackerClient.decodeField invitedRole
      let code ← TrackerClient.decodeField code
      let creatorDeviceId ← TrackerClient.decodeField creatorDeviceId
      let creatorFingerprint ← TrackerClient.decodeField creatorFingerprint
      let invitation : ParsedInvitation :=
        ⟨trackerUrl, taskId, topology, invitedRole, code, creatorDeviceId, creatorFingerprint⟩
      if invitation.Malformed then
        .error (.invalidArgument "invitation token fields are invalid")
      else .ok invitation
  | _ => .error (.invalidArgument "invitation token is invalid")

/-- The fields of a token, in their order. -/
def ParsedInvitation.fields (invitation : ParsedInvitation) : List Bytes :=
  [invitation.trackerUrl, invitation.taskId, invitation.topology, invitation.invitedRole,
    invitation.code, invitation.creatorDeviceId, invitation.creatorFingerprint]

theorem splitFields_invitationToken (invitation : ParsedInvitation) :
    Percent.splitFields bar (invitationToken invitation) =
      ascii "VSINVITE1" :: invitation.fields.map (Percent.encode isPlain) := by
  have hjoin : invitationToken invitation =
      [bar].intercalate (ascii "VSINVITE1" :: invitation.fields.map (Percent.encode isPlain)) := by
    have htag : ascii "VSINVITE1|" = ascii "VSINVITE1" ++ [bar] := by decide
    simp only [invitationToken, ParsedInvitation.fields, TrackerClient.encodeField_eq, htag,
      List.map_cons, List.map_nil, List.intercalate_cons_cons, List.intercalate_singleton,
      List.append_assoc]
  rw [hjoin, Percent.splitFields_eq_splitOn]
  refine List.splitOn_intercalate bar (fun field hfield => ?_) (List.cons_ne_nil _ _)
  rcases List.mem_cons.mp hfield with rfl | hfield
  · decide
  · obtain ⟨text, -, rfl⟩ := List.mem_map.mp hfield
    exact Percent.not_mem_encode (by decide) (by decide) (by decide) text

/-- **A token is parsed to the invitation it was made of**, and then checked.  The fields come back
whatever is in them, so the checks alone decide. -/
theorem parseInvitation_invitationToken (invitation : ParsedInvitation) :
    parseInvitation (invitationToken invitation) =
      if invitation.Malformed then .error (.invalidArgument "invitation token fields are invalid")
      else .ok invitation := by
  rw [parseInvitation, splitFields_invitationToken]
  simp only [ParsedInvitation.fields, List.map_cons, List.map_nil, ne_eq, not_true_eq_false,
    if_false, TrackerClient.decodeField_encode]
  rfl

/-- **The codec of the protocol.**  Both encoders write the same.  Either decoder reads what either
encoder wrote, the tracker's if the text is UTF-8.  What is written has no separator in it, of
fields, lines or tokens, and every percent sign in it starts an escape.  So either splitter finds
the fields that the other side has put into a line, if there is a field at all, and on the
tracker's side if that many are expected and the body is within the limit.  A token is parsed to
the invitation it was made of. -/
theorem tracker_field_codec :
    TrackerClient.encodeField = TrackerServer.encodeField ∧
    (∀ text, TrackerClient.decodeField (TrackerClient.encodeField text) = .ok text ∧
      TrackerClient.decodeField (TrackerServer.encodeField text) = .ok text) ∧
    (∀ text, validUtf8 text = true →
      TrackerServer.decodeField (TrackerClient.encodeField text) = .ok text ∧
      TrackerServer.decodeField (TrackerServer.encodeField text) = .ok text) ∧
    (∀ encode ∈ [TrackerClient.encodeField, TrackerServer.encodeField],
      (∀ text, ∀ c ∈ encode text,
        c ≠ tab ∧ c ≠ newline ∧ c ≠ '\r'.toUInt8 ∧ c ≠ bar) ∧
      (∀ text before after, encode text = before ++ '%'.toUInt8 :: after →
        ∃ high low rest, after = high :: low :: rest ∧
          (Percent.digit high).isSome = true ∧ (Percent.digit low).isSome = true) ∧
      (∀ texts : List Bytes,
        (TrackerClient.fields ([tab].intercalate (texts.map encode))).mapM
            TrackerClient.decodeField = .ok texts ↔ texts ≠ []) ∧
      (∀ texts : List Bytes, (∀ text ∈ texts, validUtf8 text = true) → ∀ expected,
        TrackerServer.fields ([tab].intercalate (texts.map encode)) expected = .ok texts ↔
          texts ≠ [] ∧ expected = texts.length ∧
            ([tab].intercalate (texts.map encode)).length ≤ maxBodyBytes)) ∧
    (∀ invitation : ParsedInvitation, ¬ invitation.Malformed →
      parseInvitation (invitationToken invitation) = .ok invitation) := by
  refine ⟨TrackerClient.encodeField_eq.trans TrackerServer.encodeField_eq.symm, fun text => ?_,
    fun text htext => ?_, fun encode hencode => ?_, fun invitation h => ?_⟩
  · rw [TrackerClient.encodeField_eq, TrackerServer.encodeField_eq]
    exact ⟨TrackerClient.decodeField_encode text, TrackerClient.decodeField_encode text⟩
  · rw [TrackerClient.encodeField_eq, TrackerServer.encodeField_eq]
    exact ⟨TrackerServer.decodeField_encode htext, TrackerServer.decodeField_encode htext⟩
  · have heq : encode = Percent.encode isPlain := by
      rcases List.mem_cons.mp hencode with rfl | hencode
      · exact TrackerClient.encodeField_eq
      · rw [List.mem_singleton.mp hencode]
        exact TrackerServer.encodeField_eq
    subst heq
    refine ⟨fun text c hc => ?_, fun text before after => Percent.escape_of_percent (by decide),
      TrackerClient.fields_join, fun texts => TrackerServer.fields_join⟩
    have hnot : ∀ separator : UInt8, isPlain separator = false → separator ≠ Percent.percent →
        Percent.digit separator = none → c ≠ separator := by
      rintro separator hplain hpercent hdigit rfl
      exact Percent.not_mem_encode hplain hpercent hdigit text hc
    exact ⟨hnot _ (by decide) (by decide) (by decide), hnot _ (by decide) (by decide) (by decide),
      hnot _ (by decide) (by decide) (by decide), hnot _ (by decide) (by decide) (by decide)⟩
  · rw [parseInvitation_invitationToken, if_neg h]

/-- A text of two characters, the first of two bytes and the second a separator of tokens. -/
def umlautBar : Bytes := [0xC3, 0xBC, bar]

/-- An invitation to a task that is named like that. -/
def umlautInvitation : ParsedInvitation where
  trackerUrl := ascii "https://tracker:8443/"
  taskId := umlautBar
  topology := ascii "bidirectional"
  invitedRole := ascii "peer"
  code := ascii "100%"
  creatorDeviceId := List.replicate 32 'd'.toUInt8
  creatorFingerprint := List.replicate 64 'f'.toUInt8

/-- The text is written with escapes only, either decoder reads it, it can be a field of a request
beside one with a percent sign, and the token of the invitation is read as what it was made of. -/
theorem tracker_field_codec_umlaut :
    TrackerClient.encodeField umlautBar = ascii "%C3%BC%7C" ∧
      TrackerClient.decodeField (TrackerServer.encodeField umlautBar) = .ok umlautBar ∧
      TrackerServer.decodeField (TrackerClient.encodeField umlautBar) = .ok umlautBar ∧
      TrackerServer.fields
        ([tab].intercalate ([umlautBar, ascii "100%"].map TrackerClient.encodeField)) 2 =
          .ok [umlautBar, ascii "100%"] ∧
      parseInvitation (invitationToken umlautInvitation) = .ok umlautInvitation := by
  obtain ⟨-, hclient, hserver, hencoders, htoken⟩ := tracker_field_codec
  have hutf8 : validUtf8 umlautBar = true := by decide +kernel
  have htexts : ∀ text ∈ [umlautBar, ascii "100%"], validUtf8 text = true := by decide +kernel
  refine ⟨by decide +kernel, (hclient umlautBar).2, (hserver umlautBar hutf8).1, ?_,
    htoken umlautInvitation (by decide +kernel)⟩
  exact ((hencoders TrackerClient.encodeField List.mem_cons_self).2.2.2 _ htexts 2).mpr
    ⟨List.cons_ne_nil _ _, rfl, by decide +kernel⟩

end VeritasSync
