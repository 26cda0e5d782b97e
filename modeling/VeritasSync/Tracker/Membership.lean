import VeritasSync.Tracker.Server

/-!
# Who is in a room

A device gets into a room by creating it or by redeeming an invitation, and either way through
`admit_member`.  The roles of a room's members therefore always fit its topology.  An invitation is
redeemed in the transaction that admits the device, so a code that is redeemed names a member.

The random ids and codes need not be distinct for this: they are primary keys, and a row whose key
is taken is not inserted.

The invariant `Sound` is about rooms, members and invitations together, since none of the three can
be kept without the others: that at most one source is in a room depends on the role in an
invitation, which was checked against the room when the invitation was made.  `Enrolled` adds the
history, for the clause that no code is redeemed twice.
-/

set_option autoImplicit false

namespace VeritasSync

namespace Tracker

/-- The roles that the active members of a room may have: at most two peers, or one source and
targets. -/
def Fits : Topology → List Role → Prop
  | .bidirectional, roles => roles.length ≤ 2 ∧ ∀ role ∈ roles, role = .peer
  | .oneWay, roles => roles.count .source = 1 ∧ ∀ role ∈ roles, role ≠ .source → role = .target

/-- The roles of the active members of a room. -/
def Tables.rolesIn (db : Tables) (roomId : Bytes) : List Role :=
  (db.activeMembers roomId).map MemberRow.role

/-- **The invariant** of the tables of rooms, members and invitations. -/
structure Tables.Sound (db : Tables) : Prop where
  roomIds : (db.rooms.map Room.roomId).Nodup
  housed : ∀ member ∈ db.members, ∃ room ∈ db.rooms, room.roomId = member.roomId
  once : (db.members.map fun member => (member.roomId, member.deviceId)).Nodup
  fits : ∀ room ∈ db.rooms, Fits room.topology (db.rolesIn room.roomId)
  codes : (db.invitations.map Invitation.code).Nodup
  redeemers : ∀ invitation ∈ db.invitations, ∀ deviceId, invitation.redeemedBy = some deviceId →
    ∃ member ∈ db.activeMembers invitation.roomId, member.deviceId = deviceId ∧
      member.role = invitation.invitedRole

/-! ## Admission

All membership goes through `admit_member`, with its checks of the role against the topology and of
the number of members.  A device that is a member already keeps its row. -/

/-- A device that creates a room fits into it. -/
theorem fits_creator {topology : Topology} {localRole invited : Role}
    (h : Tables.validRoles topology (some localRole) (some invited) = true) :
    Fits topology [localRole] := by
  cases topology <;> cases localRole <;> cases invited <;>
    simp_all [Tables.validRoles, roleValid, Fits]

namespace Tables

variable {db : Tables} {roomId : Bytes} {auth : DeviceAuth} {role : Role} {now : Millis}

theorem memberCount_eq (db : Tables) (roomId : Bytes) :
    db.memberCount roomId = (db.rolesIn roomId).length := by
  rw [rolesIn, List.length_map]
  rfl

/-- A device that is admitted fits into the room. -/
theorem fits_admitted {topology : Topology} {deviceId : DeviceId}
    (hfits : Fits topology (db.rolesIn roomId)) (h : db.Admits roomId topology deviceId role) :
    Fits topology (db.rolesIn roomId ++ [role]) := by
  cases topology with
  | bidirectional =>
    have hroom := h.room rfl
    rw [memberCount_eq] at hroom
    have hpeer : role = .peer := by
      have := h.valid
      cases role <;> simp_all [roleValid]
    refine ⟨by rw [List.length_append, List.length_singleton]; omega, fun r hr => ?_⟩
    rcases List.mem_append.mp hr with hr | hr
    · exact hfits.2 r hr
    · rw [List.mem_singleton.mp hr, hpeer]
  | oneWay =>
    obtain ⟨hone, hothers⟩ := hfits
    have hsource : role ≠ .source := by
      intro heq
      have hmem : Role.source ∈ db.rolesIn roomId := List.count_pos_iff.mp (by omega)
      obtain ⟨member, hmember, hrole⟩ := List.mem_map.mp hmem
      exact h.source rfl heq member hmember hrole
    have htarget : role = .target := by
      have := h.valid
      cases role <;> simp_all [roleValid]
    refine ⟨?_, fun r hr hne => ?_⟩
    · rw [List.count_append, hone, List.count_singleton]
      simp [htarget]
    · rcases List.mem_append.mp hr with hr | hr
      · exact hothers r hr hne
      · rw [List.mem_singleton.mp hr, htarget]

/-- The active members of a room after one more row. -/
theorem activeMembers_append (db : Tables) (roomId : Bytes) (auth : DeviceAuth) (role : Role)
    (now : Millis) (room' : Bytes) :
    { db with members := db.members ++ [newMember roomId auth role now] }.activeMembers room' =
      db.activeMembers room' ++ if roomId = room' then [newMember roomId auth role now]
        else [] := by
  rw [activeMembers, List.filter_append]
  refine congrArg (db.activeMembers room' ++ ·) ?_
  by_cases h : roomId = room'
  · simp [h, newMember]
  · simp [h, newMember]

theorem rolesIn_append (db : Tables) (roomId : Bytes) (auth : DeviceAuth) (role : Role)
    (now : Millis) (room' : Bytes) :
    { db with members := db.members ++ [newMember roomId auth role now] }.rolesIn room' =
      db.rolesIn room' ++ if roomId = room' then [role] else [] := by
  rw [rolesIn, activeMembers_append, List.map_append]
  refine congrArg (db.rolesIn room' ++ ·) ?_
  split
  · rfl
  · rfl

/-- The keys of the members after one more row. -/
theorem Sound.once_append (h : db.Sound) (hnew : db.findMember roomId auth.deviceId = none) :
    ((db.members ++ [newMember roomId auth role now]).map
      fun member => (member.roomId, member.deviceId)).Nodup := by
  rw [List.map_append, List.nodup_append]
  refine ⟨h.once, List.nodup_singleton _, fun a ha b hb heq => ?_⟩
  obtain ⟨member, hmember, rfl⟩ := List.mem_map.mp ha
  obtain rfl := List.mem_singleton.mp hb
  obtain ⟨hroom, hdevice⟩ := Prod.mk.inj heq
  refine List.find?_eq_none.mp hnew member hmember (decide_eq_true ⟨hroom, hdevice⟩)

/-- The codes after one more invitation. -/
theorem Sound.codes_append (h : db.Sound) {invitation : Invitation}
    (hcode : ∀ other ∈ db.invitations, other.code ≠ invitation.code) :
    ((db.invitations ++ [invitation]).map Invitation.code).Nodup := by
  rw [List.map_append, List.nodup_append]
  refine ⟨h.codes, List.nodup_singleton _, fun a ha b hb heq => ?_⟩
  obtain ⟨other, hother, rfl⟩ := List.mem_map.mp ha
  exact hcode other hother (heq.trans (List.mem_singleton.mp hb))

/-- A room without members: no room has its id. -/
theorem Sound.rolesIn_eq_nil (h : db.Sound) (hroom : db.findRoom roomId = none) :
    db.rolesIn roomId = [] := by
  rw [rolesIn, List.map_eq_nil_iff, activeMembers, List.filter_eq_nil_iff]
  intro member hmember hactive
  obtain ⟨room, hmem, hid⟩ := h.housed member hmember
  refine List.find?_eq_none.mp hroom room hmem (decide_eq_true ?_)
  rw [hid]
  exact (of_decide_eq_true hactive).1

/-! ## The handlers

Three handlers write the tables of membership.  For each: if it answers with success, the invariant
holds of the new tables. -/

/-- A redeemer stays a member when there is one more. -/
theorem exists_member_append {room' : Bytes} {deviceId : DeviceId} {invited : Role}
    (h : ∃ member ∈ db.activeMembers room', member.deviceId = deviceId ∧ member.role = invited) :
    ∃ member ∈ { db with
        members := db.members ++ [newMember roomId auth role now] }.activeMembers room',
      member.deviceId = deviceId ∧ member.role = invited := by
  obtain ⟨member, hmember, hfound⟩ := h
  refine ⟨member, ?_, hfound⟩
  rw [activeMembers_append]
  exact List.mem_append_left _ hmember

/-- **`create_room`** keeps the invariant.  The room is new, or the insertion would have failed; so
its first member is its only one. -/
theorem Sound.createRoom {db' : Tables} {fresh : Fresh} {answer : Bytes}
    {taskId topologyText localText invitedText : Bytes} (h : db.Sound)
    (hroom : db.createRoom auth taskId topologyText localText invitedText now fresh =
      .ok (answer, db')) : db'.Sound := by
  obtain ⟨topology, localRole, invited, -, -, -, hvalid, hnew, hcode, room, rfl, hadmits, rfl, -⟩ :=
    createRoom_eq_ok hroom
  have hids : ∀ other ∈ db.rooms, other.roomId ≠ fresh.roomId := fun other hother heq =>
    List.find?_eq_none.mp hnew other hother (decide_eq_true heq)
  refine ⟨?_, fun member hmember => ?_, h.once_append hadmits.new, fun other hother => ?_, ?_,
    fun invitation hinvitation deviceId hredeemed => ?_⟩
  · rw [List.map_append, List.nodup_append]
    refine ⟨h.roomIds, List.nodup_singleton _, fun a ha b hb heq => ?_⟩
    obtain ⟨other, hother, rfl⟩ := List.mem_map.mp ha
    exact hids other hother (heq.trans (List.mem_singleton.mp hb))
  · rcases List.mem_append.mp hmember with hmember | hmember
    · obtain ⟨other, hother, heq⟩ := h.housed member hmember
      exact ⟨other, List.mem_append_left _ hother, heq⟩
    · rw [List.mem_singleton.mp hmember]
      exact ⟨_, List.mem_append_right _ List.mem_cons_self, rfl⟩
  · have hroles := rolesIn_append db fresh.roomId auth localRole now other.roomId
    rcases List.mem_append.mp hother with hother | hother
    · rw [if_neg (hids other hother).symm, List.append_nil] at hroles
      exact hroles ▸ h.fits other hother
    · obtain rfl := List.mem_singleton.mp hother
      rw [if_pos rfl, h.rolesIn_eq_nil hnew, List.nil_append] at hroles
      exact hroles ▸ fits_creator hvalid
  · exact h.codes_append hcode
  · rcases List.mem_append.mp hinvitation with hinvitation | hinvitation
    · exact exists_member_append (h.redeemers invitation hinvitation deviceId hredeemed)
    · rw [List.mem_singleton.mp hinvitation] at hredeemed
      cases hredeemed

/-- **`create_invitation`** keeps the invariant.  The role has been tested against the topology
before the row is inserted. -/
theorem Sound.createInvitation {db' : Tables} {fresh : Fresh} {answer invitedText : Bytes}
    (h : db.Sound)
    (hcreate : db.createInvitation auth roomId invitedText now fresh = .ok (answer, db')) :
    db'.Sound := by
  obtain ⟨room, creatorRole, invited, -, -, -, hcode, rfl⟩ := createInvitation_eq_ok hcreate
  refine ⟨h.roomIds, h.housed, h.once, h.fits, ?_,
    fun invitation hinvitation deviceId hredeemed => ?_⟩
  · exact h.codes_append hcode
  · rcases List.mem_append.mp hinvitation with hinvitation | hinvitation
    · exact h.redeemers invitation hinvitation deviceId hredeemed
    · rw [List.mem_singleton.mp hinvitation] at hredeemed
      cases hredeemed

/-- The codes are those there were. -/
theorem setRedeemed_codes (db : Tables) (code : Bytes) (deviceId : DeviceId) :
    (db.setRedeemed code deviceId).invitations.map Invitation.code =
      db.invitations.map Invitation.code := by
  rw [setRedeemed, List.map_map]
  refine List.map_congr_left fun invitation _ => ?_
  simp only [Function.comp_apply]
  split
  · rfl
  · rfl

/-- With distinct codes, the row that is found is the only one with its code. -/
theorem Sound.eq_of_code (h : db.Sound) {a b : Invitation} (ha : a ∈ db.invitations)
    (hb : b ∈ db.invitations) (heq : a.code = b.code) : a = b :=
  List.inj_on_of_nodup_map h.codes ha hb heq

/-- A row of the invitations after an `UPDATE`. -/
theorem mem_setRedeemed {code : Bytes} {deviceId : DeviceId} {invitation : Invitation} :
    invitation ∈ (db.setRedeemed code deviceId).invitations ↔
      (invitation ∈ db.invitations ∧ invitation.code ≠ code) ∨
        ∃ before ∈ db.invitations, before.code = code ∧
          invitation = { before with redeemedBy := some deviceId } := by
  rw [setRedeemed, List.mem_map]
  constructor
  · rintro ⟨before, hbefore, rfl⟩
    by_cases hcode : before.code = code
    · rw [if_pos hcode]
      exact .inr ⟨before, hbefore, hcode, rfl⟩
    · rw [if_neg hcode]
      exact .inl ⟨hbefore, hcode⟩
  · rintro (⟨hmem, hcode⟩ | ⟨before, hbefore, hcode, rfl⟩)
    · exact ⟨invitation, hmem, if_neg hcode⟩
    · exact ⟨before, hbefore, if_pos hcode⟩

/-- **`redeem_invitation`** keeps the invariant.  The admission and the mark on the invitation are
one transaction. -/
theorem Sound.redeemInvitation {db' : Tables} {fresh : Fresh}
    {answer code taskId requestedText : Bytes} (h : db.Sound)
    (hredeem : db.redeemInvitation auth code taskId requestedText now fresh = .ok (answer, db')) :
    db'.Sound := by
  obtain ⟨invitation, room, hfound, -, hroom, hadmits, rfl, -⟩ := redeemInvitation_eq_ok hredeem
  obtain ⟨hinvitation, hcode⟩ := findInvitation_eq_some hfound
  obtain ⟨hmem, hid⟩ := findRoom_eq_some hroom
  refine ⟨h.roomIds, fun member hmember => ?_, h.once_append hadmits.new,
    fun other hother => ?_, ?_,
    fun after hafter deviceId hredeemed => ?_⟩
  · rcases List.mem_append.mp hmember with hmember | hmember
    · exact h.housed member hmember
    · rw [List.mem_singleton.mp hmember]
      exact ⟨room, hmem, rfl⟩
  · have hroles := rolesIn_append db room.roomId auth invitation.invitedRole now other.roomId
    by_cases heq : room.roomId = other.roomId
    · obtain rfl := List.inj_on_of_nodup_map h.roomIds hmem hother heq
      rw [if_pos rfl] at hroles
      exact hroles ▸ fits_admitted (h.fits room hmem) hadmits
    · rw [if_neg heq, List.append_nil] at hroles
      exact hroles ▸ h.fits other hother
  · exact (setRedeemed_codes db code auth.deviceId).symm ▸ h.codes
  · rcases mem_setRedeemed.mp hafter with ⟨hold, -⟩ | ⟨before, hbefore, hsame, rfl⟩
    · exact exists_member_append (h.redeemers after hold deviceId hredeemed)
    · -- the row that was updated is the one that was read, and its redeemer the new member
      obtain rfl := h.eq_of_code hbefore hinvitation (hsame.trans hcode.symm)
      obtain rfl := Option.some.inj hredeemed
      refine ⟨newMember room.roomId auth before.invitedRole now, ?_, rfl, rfl⟩
      have hmembers := activeMembers_append db room.roomId auth before.invitedRole now before.roomId
      rw [if_pos hid] at hmembers
      exact hmembers ▸ List.mem_append_right _ List.mem_cons_self

/-- The other handlers touch none of the three tables. -/
theorem Sound.of_same {db' : Tables} (h : db.Sound) (hrooms : db'.rooms = db.rooms)
    (hmembers : db'.members = db.members) (hinvitations : db'.invitations = db.invitations) :
    db'.Sound := by
  cases db
  cases db'
  cases hrooms
  cases hmembers
  cases hinvitations
  exact ⟨h.roomIds, h.housed, h.once, h.fits, h.codes, h.redeemers⟩

end Tables

/-! ## Runs

A request is served in sections and other requests are served in between, but each handler does its
writing in one.  So the lemmas about the handlers are lemmas about steps. -/

namespace Server

/-- **The invariant** of a run: the tables are sound, and a code that has been redeemed is marked
with the device that redeemed it. -/
structure Enrolled (s : Server) : Prop where
  sound : s.db.Sound
  codes : (s.trace.redeemed.map Prod.fst).Nodup
  marked : ∀ redeemed ∈ s.trace.redeemed, ∃ invitation ∈ s.db.invitations,
    invitation.code = redeemed.1 ∧ invitation.redeemedBy = some redeemed.2

/-- A step that redeems nothing. -/
theorem Enrolled.of_grows {s s' : Server} (h : s.Enrolled) (hsound : s'.db.Sound)
    (hredeemed : s'.trace.redeemed = s.trace.redeemed)
    (hgrows : ∀ invitation ∈ s.db.invitations, invitation ∈ s'.db.invitations) : s'.Enrolled where
  sound := hsound
  codes := by
    rw [hredeemed]
    exact h.codes
  marked redeemed hmem := by
    rw [hredeemed] at hmem
    obtain ⟨invitation, hinvitation, hmark⟩ := h.marked redeemed hmem
    exact ⟨invitation, hgrows invitation hinvitation, hmark⟩

/-- A step that touches none of the three tables. -/
theorem Enrolled.of_same {s s' : Server} (h : s.Enrolled) {db' : Tables} (hdb : s'.db = db')
    (hrooms : db'.rooms = s.db.rooms) (hmembers : db'.members = s.db.members)
    (hinvitations : db'.invitations = s.db.invitations)
    (hredeemed : s'.trace.redeemed = s.trace.redeemed) : s'.Enrolled := by
  subst hdb
  refine h.of_grows (h.sound.of_same hrooms hmembers hinvitations) hredeemed fun _ hmem => ?_
  rw [hinvitations]
  exact hmem

/-- A code is redeemed. -/
theorem Enrolled.redeem {s s' : Server} (h : s.Enrolled) {auth : DeviceAuth} {now : Millis}
    {fresh : Fresh} {answer code taskId requestedText : Bytes} {db' : Tables} (hdb : s'.db = db')
    (hredeem : s.db.redeemInvitation auth code taskId requestedText now fresh = .ok (answer, db'))
    (hredeemed : s'.trace.redeemed = s.trace.redeemed ++ [(code, auth.deviceId)]) :
    s'.Enrolled := by
  have hsound := h.sound.redeemInvitation hredeem
  obtain ⟨invitation, room, hfound, hopen, -, -, rfl, -⟩ := Tables.redeemInvitation_eq_ok hredeem
  obtain ⟨hinvitation, hcode⟩ := Tables.findInvitation_eq_some hfound
  -- an invitation that is still open has not been redeemed
  have hnew : ∀ redeemed ∈ s.trace.redeemed, redeemed.1 ≠ code := by
    intro redeemed hmem heq
    obtain ⟨other, hother, hsame, hmark⟩ := h.marked redeemed hmem
    obtain rfl := h.sound.eq_of_code hother hinvitation (hsame.trans (heq.trans hcode.symm))
    rw [hopen] at hmark
    cases hmark
  refine ⟨hdb ▸ hsound, ?_, fun redeemed hmem => ?_⟩
  · rw [hredeemed, List.map_append, List.nodup_append]
    refine ⟨h.codes, List.nodup_singleton _, fun a ha b hb heq => ?_⟩
    obtain ⟨redeemed, hmem, rfl⟩ := List.mem_map.mp ha
    exact hnew redeemed hmem (heq.trans (List.mem_singleton.mp hb))
  · rw [hredeemed] at hmem
    rw [hdb]
    rcases List.mem_append.mp hmem with hmem | hmem
    · obtain ⟨other, hother, hsame, hmark⟩ := h.marked redeemed hmem
      refine ⟨other, Tables.mem_setRedeemed.mpr (.inl ⟨hother, ?_⟩), hsame, hmark⟩
      rw [hsame]
      exact hnew redeemed hmem
    · rw [List.mem_singleton.mp hmem]
      exact ⟨{ invitation with redeemedBy := some auth.deviceId },
        Tables.mem_setRedeemed.mpr (.inr ⟨invitation, hinvitation, hcode, rfl⟩), hcode, rfl⟩

/-- **One step** keeps the invariant.  A step without success changes none of the three tables; of
the handlers only three write them. -/
theorem enrolled_step (P : Primitives) (s : Server) (action : Action) (h : s.Enrolled) :
    (step P s action).Enrolled := by
  rcases step_cases P s action with hquiet | ⟨call, -, values, now, fresh, answer, -, hworked⟩
  · obtain ⟨nonces, hdb⟩ := hquiet.db
    exact h.of_same hdb rfl rfl rfl hquiet.redeemed
  have hredeemed := hworked.redeemed
  have hserved := hworked.served
  generalize call.request.endpoint = endpoint at hserved hredeemed
  generalize hdb' : (step P s action).db = db' at hserved
  cases hserved with
  | createRoom hroom =>
    have hsound := h.sound.createRoom hroom
    obtain ⟨_, _, _, -, -, -, -, -, -, _, -, -, rfl, -⟩ := Tables.createRoom_eq_ok hroom
    exact h.of_grows (hdb' ▸ hsound) hredeemed fun _ hmem => hdb' ▸ List.mem_append_left _ hmem
  | createInvitation hinvitation =>
    have hsound := h.sound.createInvitation hinvitation
    obtain ⟨_, _, _, -, -, -, -, rfl⟩ := Tables.createInvitation_eq_ok hinvitation
    exact h.of_grows (hdb' ▸ hsound) hredeemed fun _ hmem => hdb' ▸ List.mem_append_left _ hmem
  | redeemInvitation hredeem => exact h.redeem hdb' hredeem hredeemed
  | joinRoom hjoin =>
    obtain ⟨_, _, -, -, -, rfl, -⟩ := Tables.joinRoom_eq_ok hjoin
    exact h.of_same hdb' rfl rfl rfl hredeemed
  | sendSignal hsend =>
    obtain ⟨_, -, _, -, -, rfl⟩ := Tables.sendSignal_eq_ok hsend
    exact h.of_same hdb' rfl rfl rfl hredeemed
  | drainSignals =>
    obtain ⟨signals, hdrained⟩ := Tables.drainSignals_signals s.db call.checked.auth _
    exact h.of_same (hdb'.trans hdrained) rfl rfl rfl hredeemed

/-- A step that answers a request with success. -/
def Succeeds (P : Primitives) (s : Server) (action : Action) : Prop :=
  ∃ request answer, (step P s action).trace.replies = s.trace.replies ++ [(request, .ok answer)]

/-- A step that answers no request with success leaves everything about membership alone. -/
theorem tables_of_not_succeeds (P : Primitives) (s : Server) (action : Action)
    (h : ¬ s.Succeeds P action) :
    (step P s action).db.rooms = s.db.rooms ∧ (step P s action).db.members = s.db.members ∧
      (step P s action).db.invitations = s.db.invitations ∧
      (step P s action).db.sessions = s.db.sessions := by
  rcases step_cases P s action with hquiet | ⟨call, -, values, now, fresh, answer, -, hworked⟩
  · obtain ⟨nonces, hdb⟩ := hquiet.db
    rw [hdb]
    exact ⟨rfl, rfl, rfl, rfl⟩
  · exact absurd ⟨_, _, hworked.replies⟩ h

end Server

/-- **Membership.**  In every run of the tracker, after any requests at any times:

* a bidirectional room has at most two active members, and all are peers; a one-way room has exactly
  one source, and its other active members are targets;
* no device is twice a member of a room;
* no code is redeemed twice, an invitation is marked with the device that redeemed it, and a device
  with which an invitation is marked is an active member of its room, with the role it was invited
  to;
* a request that is not answered with success leaves rooms, members, invitations and sessions as
  they were. -/
theorem membership_sound (P : Primitives) (clock : Millis) (actions : List Server.Action) :
    let s := Run.run (Server.step P) (.start clock) actions
    (∀ room ∈ s.db.rooms, Fits room.topology (s.db.rolesIn room.roomId)) ∧
      (s.db.members.map fun member => (member.roomId, member.deviceId)).Nodup ∧
      (s.trace.redeemed.map Prod.fst).Nodup ∧
      (∀ redeemed ∈ s.trace.redeemed, ∃ invitation ∈ s.db.invitations,
        invitation.code = redeemed.1 ∧ invitation.redeemedBy = some redeemed.2) ∧
      (∀ invitation ∈ s.db.invitations, ∀ deviceId, invitation.redeemedBy = some deviceId →
        ∃ member ∈ s.db.activeMembers invitation.roomId, member.deviceId = deviceId ∧
          member.role = invitation.invitedRole) ∧
      Run.Along (Server.step P)
        (fun s action => ¬ s.Succeeds P action →
          (Server.step P s action).db.rooms = s.db.rooms ∧
            (Server.step P s action).db.members = s.db.members ∧
            (Server.step P s action).db.invitations = s.db.invitations ∧
            (Server.step P s action).db.sessions = s.db.sessions)
        (.start clock) actions := by
  have hstart : (Server.start clock).Enrolled := by
    refine ⟨⟨List.nodup_nil, nofun, List.nodup_nil, nofun, List.nodup_nil, nofun⟩,
      List.nodup_nil, nofun⟩
  have h := Run.run_invariant_all (Server.enrolled_step P) actions hstart
  refine ⟨h.sound.fits, h.sound.once, h.codes, h.marked, h.sound.redeemers, ?_⟩
  exact Run.along_of_invariant (P := fun _ _ => True) (I := fun _ => True)
    (fun s action _ _ => ⟨Server.tables_of_not_succeeds P s action, trivial⟩) actions _
    (Run.along_of_forall fun _ _ => trivial) trivial

end Tracker

end VeritasSync
