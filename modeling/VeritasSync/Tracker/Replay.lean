import Mathlib
import VeritasSync.Tracker.Server

/-!
# Replay protection

`authenticate` takes a request whose timestamp is within five minutes of the clock, in whole
seconds, and remembers its nonce for ten minutes from when the nonce is stored, in milliseconds.  A
request dated five minutes ahead stays within the window for the rest of the second in which those
ten minutes end, and its nonce does not.  The window is tested before the lock is taken, so a
request can also wait at the lock until its nonce has expired.  And the difference of the clock and
the timestamp wraps: at the one timestamp that is 2^63 seconds back, its absolute value is negative.

Where none of the three happens, no request is accepted twice (`no_replay`).

The three gaps are small, but they are there for anyone who waits: a captured request can be used
again some minutes later, once.  Whether a run falls into one of them can be told at each step from
the request, the clock and the rows, which is how the condition is stated.
-/

set_option autoImplicit false

namespace VeritasSync

namespace Tracker

/-- What the signature of a request covers, and who signed. -/
def Call.signed (call : Call) : DeviceId × Bytes × Bytes × Bytes × Bytes :=
  (call.checked.auth.deviceId, call.checked.timestampText, call.checked.nonce,
    call.request.endpoint.path, call.request.body)

/-- The first millisecond at which a timestamp is too old. -/
def windowEnd (timestamp : Int) : Int := (timestamp + signatureSkewSeconds + 1) * 1000

/-- The timestamp is within the window, in ordinary arithmetic. -/
def Within (now : Millis) (timestamp : Int) : Prop :=
  |((now.1 / 1000 : Nat) : Int) - timestamp| ≤ signatureSkewSeconds

instance (now : Millis) (timestamp : Int) : Decidable (Within now timestamp) :=
  inferInstanceAs (Decidable (_ ≤ _))

/-! ## The window

The test is made on seconds, with `i64` arithmetic that wraps in a release build.  Only one
timestamp is affected by that. -/

/-- The test of the timestamp is right, but for one timestamp. -/
theorem within_of_inWindow {now : Millis} {timestamp : Int} (hrange : inRange 64 timestamp = true)
    (hne : timestamp ≠ ((now.1 / 1000 : Nat) : Int) - 2 ^ 63) (h : inWindow now timestamp = true) :
    Within now timestamp := by
  have hnow := now.2
  simp only [inRange, Bool.and_eq_true, decide_eq_true_eq] at hrange
  have hskew : signatureSkewSeconds = 300 := rfl
  rw [inWindow, decide_eq_true_eq, wrappingAbs, wrap64, wrap64, hskew] at h
  rw [Within, hskew, abs_le]
  simp only [Int.bmod] at h
  split_ifs at h <;> omega

/-! ## Nonces

A nonce is stored with the time at which it expires, and expired nonces are purged when another one
is about to be stored.  So a nonce guards its request as long as it is in the table, and it stays
there as long as it has not expired. -/

namespace Tables

/-- The rows that a purge leaves. -/
def unexpired (db : Tables) (now : Millis) : List RequestNonce :=
  db.nonces.filter fun row => ¬ row.expiresAtMs < now.1

/-- A purge removes what has expired. -/
theorem unexpired_or {db : Tables} (now : Millis) {row : RequestNonce} (hrow : row ∈ db.nonces) :
    row ∈ db.unexpired now ∨ row.expiresAtMs < now.1 := by
  by_cases hexpired : row.expiresAtMs < now.1
  · exact .inr hexpired
  · exact .inl (List.mem_filter.mpr ⟨hrow, by simpa using hexpired⟩)

/-- The nonce is there, or it is stored. -/
theorem recordNonce_cases (db : Tables) (deviceId : DeviceId) (nonce : Bytes)
    (purgedAt insertedAt : Millis) :
    (∃ e, db.recordNonce deviceId nonce purgedAt insertedAt =
        (.error e, { db with nonces := db.unexpired purgedAt })) ∨
      ((∀ row ∈ db.unexpired purgedAt, ¬ (row.deviceId = deviceId ∧ row.nonce = nonce)) ∧
        db.recordNonce deviceId nonce purgedAt insertedAt =
          (.ok (), { db with
            nonces := db.unexpired purgedAt ++
              [⟨deviceId, nonce, expiry insertedAt (signatureSkewSeconds * 2 * 1000)⟩] })) := by
  rw [recordNonce]
  simp only
  split
  · exact .inl ⟨_, rfl⟩
  · rename_i hused
    refine .inr ⟨fun row hrow heq => hused ?_, rfl⟩
    exact List.any_eq_true.mpr ⟨row, hrow, decide_eq_true heq⟩

end Tables

/-- What holds of a request that has passed the checks before the lock. -/
structure Call.Genuine (call : Call) : Prop where
  text : parseInt 64 call.checked.timestampText = some call.checked.timestamp
  within : Within call.checkedAt call.checked.timestamp

namespace Server

/-- **The condition** on a step.  A request that arrives is not dated 2^63 seconds back; and when a
request gets to the section of `authenticate`, it is not too old yet, and the nonce that is stored
outlives it. -/
def Timely (s : Server) : Action → Prop
  | .arrive request now => ∀ text ∈ request.headers.timestamp, ∀ timestamp ∈ parseInt 64 text,
      timestamp ≠ (((s.tick now).1 / 1000 : Nat) : Int) - 2 ^ 63
  | .advance index first second _ => ∀ call ∈ s.calls[index]?, call.stage = .nonce →
      ((s.tick first).1 : Int) < windowEnd call.checked.timestamp ∧
        windowEnd call.checked.timestamp ≤
          expiry (max (s.tick first) second) (signatureSkewSeconds * 2 * 1000) + 1

instance decidableTimely (s : Server) : ∀ action, Decidable (s.Timely action)
  | .arrive request now => inferInstanceAs (Decidable (∀ text ∈ request.headers.timestamp,
      ∀ timestamp ∈ parseInt 64 text, timestamp ≠ (((s.tick now).1 / 1000 : Nat) : Int) - 2 ^ 63))
  | .advance index first second _ => inferInstanceAs (Decidable (∀ call ∈ s.calls[index]?,
      call.stage = .nonce → ((s.tick first).1 : Int) < windowEnd call.checked.timestamp ∧
        windowEnd call.checked.timestamp ≤
          expiry (max (s.tick first) second) (signatureSkewSeconds * 2 * 1000) + 1))

/-- **The invariant**: the nonce of an accepted request is stored until the request is too old. -/
structure Guarded (s : Server) : Prop where
  waiting : ∀ call ∈ s.calls, call.stage = .nonce → call.Genuine
  genuine : ∀ call ∈ s.trace.accepted, call.Genuine
  kept : ∀ call ∈ s.trace.accepted, windowEnd call.checked.timestamp ≤ s.clock.1 ∨
    ∃ row ∈ s.db.nonces, row.deviceId = call.checked.auth.deviceId ∧
      row.nonce = call.checked.nonce ∧ windowEnd call.checked.timestamp ≤ row.expiresAtMs + 1
  once : (s.trace.accepted.map Call.signed).Nodup

/-- A step that accepts nothing: time goes on, and a nonce that is gone has expired. -/
structure Ages (s s' : Server) : Prop where
  clock : s.clock ≤ s'.clock
  nonces : ∀ row ∈ s.db.nonces, row ∈ s'.db.nonces ∨ row.expiresAtMs < s'.clock.1

/-- What was kept is kept, or too old. -/
theorem Guarded.kept_of_ages {s s' : Server} (h : s.Guarded) (hages : Ages s s') {call : Call}
    (hcall : call ∈ s.trace.accepted) :
    windowEnd call.checked.timestamp ≤ s'.clock.1 ∨
      ∃ row ∈ s'.db.nonces, row.deviceId = call.checked.auth.deviceId ∧
        row.nonce = call.checked.nonce ∧
          windowEnd call.checked.timestamp ≤ row.expiresAtMs + 1 := by
  have hclock : (s.clock.1 : Int) ≤ s'.clock.1 := Int.ofNat_le.mpr hages.clock
  rcases h.kept call hcall with hold | ⟨row, hrow, hdevice, hnonce, hexpires⟩
  · exact .inl (hold.trans hclock)
  · rcases hages.nonces row hrow with hrow | hexpired
    · exact .inr ⟨row, hrow, hdevice, hnonce, hexpires⟩
    · exact .inl (by omega)

/-- A step that accepts nothing keeps the invariant. -/
theorem Guarded.of_ages {s s' : Server} (h : s.Guarded) (hages : Ages s s')
    (hcalls : ∀ call ∈ s'.calls, call.stage = .nonce → call ∈ s.calls ∨ call.Genuine)
    (haccepted : s'.trace.accepted = s.trace.accepted) : s'.Guarded where
  waiting call hcall hstage := by
    rcases hcalls call hcall hstage with hold | hgenuine
    · exact h.waiting call hold hstage
    · exact hgenuine
  genuine := by
    rw [haccepted]
    exact h.genuine
  kept call hcall := by
    rw [haccepted] at hcall
    exact h.kept_of_ages hages hcall
  once := by
    rw [haccepted]
    exact h.once

/-- A request is accepted. -/
theorem Guarded.accept {s s' : Server} (h : s.Guarded) {call : Call} (hcall : call ∈ s.calls)
    (hstage : call.stage = .nonce) {purgedAt : Millis} {expiresAt : Int}
    (hpurged : s.clock ≤ purgedAt) (hclock : purgedAt ≤ s'.clock)
    (hfresh : (purgedAt.1 : Int) < windowEnd call.checked.timestamp)
    (houtlives : windowEnd call.checked.timestamp ≤ expiresAt + 1)
    (hnew : ∀ row ∈ s.db.unexpired purgedAt, ¬ (row.deviceId = call.checked.auth.deviceId ∧
      row.nonce = call.checked.nonce))
    (hnonces : s'.db.nonces =
      s.db.unexpired purgedAt ++ [⟨call.checked.auth.deviceId, call.checked.nonce, expiresAt⟩])
    (hcalls : ∀ call ∈ s'.calls, call.stage = .nonce → call ∈ s.calls)
    (haccepted : s'.trace.accepted = s.trace.accepted ++ [call]) : s'.Guarded where
  waiting other hother hat := h.waiting other (hcalls other hother hat) hat
  genuine other hother := by
    rw [haccepted] at hother
    rcases List.mem_append.mp hother with hother | hother
    · exact h.genuine other hother
    · rw [List.mem_singleton.mp hother]
      exact h.waiting call hcall hstage
  kept other hother := by
    rw [haccepted] at hother
    rcases List.mem_append.mp hother with hother | hother
    · refine h.kept_of_ages ⟨hpurged.trans hclock, fun row hrow => ?_⟩ hother
      rcases Tables.unexpired_or purgedAt hrow with hrow | hexpired
      · rw [hnonces]
        exact .inl (List.mem_append_left _ hrow)
      · exact .inr (hexpired.trans_le (Int.ofNat_le.mpr hclock))
    · rw [List.mem_singleton.mp hother, hnonces]
      exact .inr ⟨_, List.mem_append_right _ List.mem_cons_self, rfl, rfl, houtlives⟩
  once := by
    rw [haccepted, List.map_append, List.nodup_append]
    refine ⟨h.once, List.nodup_singleton _, fun a ha b hb heq => ?_⟩
    obtain ⟨other, hother, rfl⟩ := List.mem_map.mp ha
    obtain rfl := List.mem_singleton.mp hb
    rw [Call.signed, Call.signed, Prod.mk.injEq, Prod.mk.injEq, Prod.mk.injEq] at heq
    obtain ⟨hdevice, htext, hnonce, -⟩ := heq
    -- the same text is the same timestamp, so the nonce of the earlier copy is still there
    have htime : other.checked.timestamp = call.checked.timestamp := by
      have hother := (h.genuine other hother).text
      rw [htext, (h.waiting call hcall hstage).text] at hother
      exact (Option.some.inj hother).symm
    have hbefore : (s.clock.1 : Int) ≤ purgedAt.1 := Int.ofNat_le.mpr hpurged
    rcases h.kept other hother with hold | ⟨row, hrow, hrowDevice, hrowNonce, hexpires⟩
    · rw [htime] at hold
      omega
    · rw [htime] at hexpires
      have hunexpired : ¬ row.expiresAtMs < purgedAt.1 := by omega
      exact hnew row (List.mem_filter.mpr ⟨hrow, by simpa using hunexpired⟩)
        ⟨hrowDevice.trans hdevice, hrowNonce.trans hnonce⟩

/-- What the section of `authenticate` does. -/
theorem stepNonce_cases (s : Server) (call : Call) (purgedAt insertedAt : Millis) :
    (s.stepNonce call purgedAt insertedAt).clock = s.clock ∧
      (∀ other ∈ (s.stepNonce call purgedAt insertedAt).calls, other.stage = .nonce →
        other ∈ s.calls) ∧
      (((s.stepNonce call purgedAt insertedAt).db.nonces = s.db.unexpired purgedAt ∧
          (s.stepNonce call purgedAt insertedAt).trace.accepted = s.trace.accepted) ∨
        ((∀ row ∈ s.db.unexpired purgedAt, ¬ (row.deviceId = call.checked.auth.deviceId ∧
            row.nonce = call.checked.nonce)) ∧
          (s.stepNonce call purgedAt insertedAt).db.nonces = s.db.unexpired purgedAt ++
            [⟨call.checked.auth.deviceId, call.checked.nonce,
              expiry insertedAt (signatureSkewSeconds * 2 * 1000)⟩] ∧
          (s.stepNonce call purgedAt insertedAt).trace.accepted = s.trace.accepted ++ [call])) := by
  rcases s.db.recordNonce_cases call.checked.auth.deviceId call.checked.nonce
    purgedAt insertedAt with
    ⟨e, hused⟩ | ⟨hnew, hstored⟩
  · rw [stepNonce, hused]
    exact ⟨rfl, fun other hother _ => hother, .inl ⟨rfl, rfl⟩⟩
  rw [stepNonce, hstored]
  simp only
  split
  · exact ⟨rfl, fun other hother _ => hother, .inr ⟨hnew, rfl, rfl⟩⟩
  · refine ⟨rfl, fun other hother hstage => ?_, .inr ⟨hnew, rfl, rfl⟩⟩
    rcases List.mem_append.mp hother with hother | hother
    · exact hother
    · rw [List.mem_singleton.mp hother] at hstage
      simp only at hstage
      split at hstage
      · cases hstage
      · cases hstage

/-- `authorize_session` has nothing to do with nonces. -/
theorem stepSession_passes (s : Server) (call : Call) (values : List Bytes) (now : Millis) :
    (s.stepSession call values now).clock = s.clock ∧
      (∀ other ∈ (s.stepSession call values now).calls, other.stage = .nonce → other ∈ s.calls) ∧
      (s.stepSession call values now).db.nonces = s.db.nonces ∧
      (s.stepSession call values now).trace.accepted = s.trace.accepted := by
  rw [stepSession]
  split
  · exact ⟨rfl, fun other hother _ => hother, rfl, rfl⟩
  split
  · exact ⟨rfl, fun other hother _ => hother, rfl, rfl⟩
  refine ⟨rfl, fun other hother hstage => ?_, rfl, rfl⟩
  rcases List.mem_append.mp hother with hother | hother
  · exact hother
  · rw [List.mem_singleton.mp hother] at hstage
    cases hstage

/-- Nor has the work of the handlers. -/
theorem nonces_served {db db' : Tables} {auth : DeviceAuth} {now : Millis} {fresh : Fresh}
    {endpoint : Endpoint} {values : List Bytes} {answer : Bytes}
    (h : Served db auth now fresh endpoint values answer db') : db'.nonces = db.nonces := by
  cases h with
  | createRoom hroom =>
    obtain ⟨_, _, _, -, -, -, -, -, -, _, -, -, rfl, -⟩ := Tables.createRoom_eq_ok hroom
    rfl
  | createInvitation hinvitation =>
    obtain ⟨_, _, _, -, -, -, -, rfl⟩ := Tables.createInvitation_eq_ok hinvitation
    rfl
  | redeemInvitation hredeem =>
    obtain ⟨_, _, -, -, -, -, rfl, -⟩ := Tables.redeemInvitation_eq_ok hredeem
    rfl
  | joinRoom hjoin =>
    obtain ⟨_, _, -, -, -, rfl, -⟩ := Tables.joinRoom_eq_ok hjoin
    rfl
  | sendSignal hsend =>
    obtain ⟨_, -, _, -, -, rfl⟩ := Tables.sendSignal_eq_ok hsend
    rfl
  | drainSignals =>
    obtain ⟨signals, hdrained⟩ := Tables.drainSignals_signals db auth _
    rw [hdrained]

theorem stepWork_passes (s : Server) (call : Call) (values : List Bytes) (now : Millis)
    (fresh : Fresh) :
    (s.stepWork call values now fresh).clock = s.clock ∧
      (∀ other ∈ (s.stepWork call values now fresh).calls, other.stage = .nonce →
        other ∈ s.calls) ∧
      (s.stepWork call values now fresh).db.nonces = s.db.nonces ∧
      (s.stepWork call values now fresh).trace.accepted = s.trace.accepted := by
  rw [stepWork]
  split
  · exact ⟨rfl, fun other hother _ => hother, rfl, rfl⟩
  · rename_i answer db hserve
    exact ⟨rfl, fun other hother _ => hother, nonces_served (served hserve),
      record_accepted _ _ _ _ _⟩

/-- **One step** keeps the invariant, when it meets the condition.  Time passes, nonces expire, a
request is accepted; each of these is a lemma above. -/
theorem guarded_step (P : Primitives) (s : Server) (action : Action) (htimely : s.Timely action)
    (h : s.Guarded) : (step P s action).Guarded := by
  cases action with
  | arrive request now =>
    have hclock : s.clock ≤ s.tick now := le_max_left _ _
    rw [step]
    simp only
    split
    · exact h.of_ages ⟨hclock, fun row hrow => .inl hrow⟩ (fun other hother _ => .inl hother) rfl
    -- a request that passes its checks is within the window of its timestamp
    · rename_i checked hchecked
      refine h.of_ages ⟨hclock, fun row hrow => .inl hrow⟩ (fun other hother _ => ?_) rfl
      rcases List.mem_append.mp hother with hother | hother
      · exact .inl hother
      · rw [List.mem_singleton.mp hother]
        obtain ⟨-, htext, hparse, hwindow⟩ := checkRequest_eq_ok hchecked
        exact .inr ⟨hparse, within_of_inWindow (inRange_of_parseInt hparse)
          (htimely _ htext _ hparse) hwindow⟩
  | advance index first second fresh =>
    have hfirst : s.clock ≤ s.tick first := le_max_left _ _
    have hsecond : s.tick first ≤ max (s.tick first) second := le_max_left _ _
    rw [step]
    split
    · exact h
    rename_i call hcall
    simp only
    split
    · rename_i hstage
      obtain ⟨hfresh, houtlives⟩ := htimely call hcall hstage
      obtain ⟨hclock, hcalls, hwhich⟩ := stepNonce_cases
        { s with clock := max (s.tick first) second, calls := s.calls.eraseIdx index }
        call (s.tick first) (max (s.tick first) second)
      have hcalls : ∀ other ∈ _, other.stage = .nonce → other ∈ s.calls :=
        fun other hother hat => List.mem_of_mem_eraseIdx (hcalls other hother hat)
      rcases hwhich with ⟨hnonces, haccepted⟩ | ⟨hnew, hnonces, haccepted⟩
      · refine h.of_ages ⟨hclock ▸ hfirst.trans hsecond, fun row hrow => ?_⟩
          (fun other hother hat => .inl (hcalls other hother hat)) haccepted
        rw [hnonces, hclock]
        rcases Tables.unexpired_or (s.tick first) hrow with hrow | hexpired
        · exact .inl hrow
        · exact .inr (hexpired.trans_le (Int.ofNat_le.mpr hsecond))
      -- the nonce is new, and its row outlives the window of the request
      · exact h.accept (List.mem_of_getElem? hcall) hstage hfirst
          (hclock ▸ hsecond) hfresh houtlives
          hnew hnonces hcalls haccepted
    · rename_i values hstage
      obtain ⟨hclock, hcalls, hnonces, haccepted⟩ := stepSession_passes
        { s with clock := max (s.tick first) second, calls := s.calls.eraseIdx index }
        call values (s.tick first)
      refine h.of_ages ⟨hclock ▸ hfirst.trans hsecond, fun row hrow => .inl (hnonces ▸ hrow)⟩
        (fun other hother hat => .inl (List.mem_of_mem_eraseIdx (hcalls other hother hat)))
          haccepted
    · rename_i values hstage
      obtain ⟨hclock, hcalls, hnonces, haccepted⟩ := stepWork_passes
        { s with clock := max (s.tick first) second, calls := s.calls.eraseIdx index }
        call values (s.tick first) fresh
      refine h.of_ages ⟨hclock ▸ hfirst.trans hsecond, fun row hrow => .inl (hnonces ▸ hrow)⟩
        (fun other hother hat => .inl (List.mem_of_mem_eraseIdx (hcalls other hother hat)))
          haccepted

end Server

/-- **No replay.**  In every run whose steps meet the condition, no signed request is accepted
twice, and a request that is accepted was within the window when its timestamp was tested. -/
theorem no_replay (P : Primitives) (clock : Millis) (actions : List Server.Action)
    (htimely : Run.Along (Server.step P) Server.Timely (.start clock) actions) :
    let s := Run.run (Server.step P) (.start clock) actions
    (s.trace.accepted.map Call.signed).Nodup ∧
      ∀ call ∈ s.trace.accepted, Within call.checkedAt call.checked.timestamp := by
  have hstart : (Server.start clock).Guarded :=
    ⟨fun _ hcall => absurd hcall List.not_mem_nil, fun _ hcall => absurd hcall List.not_mem_nil,
      fun _ hcall => absurd hcall List.not_mem_nil, List.nodup_nil⟩
  have h := Run.run_invariant (Server.guarded_step P) actions _ htimely hstart
  exact ⟨h.once, fun call hcall => (h.genuine call hcall).within⟩

/-! ### A captured request

The requests below are really signed: `captured` answers for the libraries on what the tracker asks
about them, and refuses everything else. -/

/-- The public key of the device. -/
def capturedKey : Bytes :=
  [3, 161, 7, 191, 243, 206, 16, 190, 29, 112, 221, 24, 231, 75, 192, 153, 103, 228, 214, 48, 155,
   165, 13, 95, 29, 220, 134, 100, 18, 85, 49, 184]

/-- Its BLAKE3 hash. -/
def capturedFingerprint : Bytes :=
  [152, 186, 133, 48, 74, 198, 57, 240, 245, 93, 170, 176, 26, 214, 213, 146, 190, 68, 161, 37,
   217, 179, 182, 94, 30, 252, 165, 185, 105, 96, 186, 236]

/-- The body of the requests, `room`, `task` and `peer`. -/
def capturedBody : Bytes := ascii "room\ttask\tpeer"

/-- Its BLAKE3 hash. -/
def capturedBodyHash : Bytes :=
  [52, 108, 46, 113, 140, 145, 81, 194, 22, 94, 43, 192, 2, 97, 46, 218, 103, 207, 123, 42, 52,
   176, 151, 173, 106, 202, 187, 118, 210, 230, 31, 58]

/-- The signature over the timestamp `300` and the nonce `1`. -/
def capturedSignature : Bytes :=
  [80, 16, 149, 205, 170, 164, 38, 128, 233, 142, 229, 186, 187, 239, 141, 3, 72, 6, 120, 190,
   154, 127, 77, 221, 56, 230, 234, 172, 75, 239, 160, 88, 131, 52, 136, 173, 211, 3, 249, 86, 9,
   153, 255, 209, 210, 42, 171, 72, 106, 235, 170, 222, 7, 201, 96, 179, 170, 222, 52, 242, 56,
   183, 95, 8]

/-- The signature over the least timestamp and the nonce `2`. -/
def ancientSignature : Bytes :=
  [17, 71, 75, 162, 99, 36, 212, 223, 51, 143, 200, 228, 118, 201, 10, 173, 132, 240, 151, 144,
   190, 72, 226, 206, 92, 0, 189, 203, 13, 246, 122, 139, 221, 214, 95, 220, 76, 78, 118, 143, 5,
   180, 31, 157, 147, 187, 253, 105, 119, 20, 34, 144, 223, 163, 217, 148, 245, 162, 181, 168, 97,
   92, 241, 3]

/-- The text of the public key. -/
def capturedKeyText : Bytes := ascii "A6EHv_POEL4dcN0Y50vAmWfk1jCbpQ1fHdyGZBJVMbg"

/-- The text of the first signature. -/
def capturedSignatureText : Bytes :=
  ascii ("UBCVzaqkJoDpjuW6u--NA0gGeL6af03dOObqrEvvoFi" ++
    "DNIit0wP5VgmZ_9HSKqtIauuq3gfJYLOq3jTyOLdfCA")

/-- The text of the second signature. -/
def ancientSignatureText : Bytes :=
  ascii ("EUdLomMk1N8zj8jkdskKrYTwl5C-SOLOXAC9yw32eov" ++
    "d1l_cTE52jwW0H52Tu_1pdxQikN-j2ZT1orWoYVzxAw")

/-- The libraries, on these requests. -/
def captured : Primitives where
  decodeBase64 text :=
    if text = capturedKeyText then some capturedKey
    else if text = capturedSignatureText then some capturedSignature
    else if text = ancientSignatureText then some ancientSignature
    else none
  blake3 bytes := if bytes = capturedKey then capturedFingerprint else capturedBodyHash
  isVerifyingKey key := key = capturedKey
  verify key message signature :=
    key = capturedKey ∧
      ((signature = capturedSignature ∧ message = ascii "POST\n/v1/rooms/join\n300\n1\n" ++
          hex capturedBodyHash) ∨
        (signature = ancientSignature ∧
          message = ascii "POST\n/v1/rooms/join\n-9223372036854775808\n2\n" ++ hex
            capturedBodyHash))

/-- A request to join a room, dated 300 seconds after the epoch. -/
def capturedRequest : Request where
  endpoint := .joinRoom
  headers := ⟨some (hex (capturedFingerprint.take 16)), some capturedKeyText, some (ascii "300"),
    some (ascii "1"), some capturedSignatureText, none⟩
  body := capturedBody

/-- The same, dated 2^63 seconds before the epoch. -/
def ancientRequest : Request where
  endpoint := .joinRoom
  headers := ⟨some (hex (capturedFingerprint.take 16)), some capturedKeyText,
    some (ascii "-9223372036854775808"), some (ascii "2"), some ancientSignatureText, none⟩
  body := capturedBody

theorem capturedRoom_ne : ascii "room" ≠ [] := by decide
theorem capturedToken_ne : ascii "token" ≠ [] := by decide
theorem capturedDigest_length : (List.replicate 32 (0 : UInt8)).length = 32 := List.length_replicate

/-- Random values; none is drawn in these runs. -/
def capturedFresh : Fresh :=
  ⟨ascii "room", ascii "code", List.replicate 32 0, ascii "token", capturedRoom_ne,
    capturedToken_ne,
    capturedDigest_length⟩

/-- The captured request, two hundred seconds before its date, and again a hundred seconds after the
first time: the second time it is refused. -/
theorem no_replay_captured :
    let s := Run.run (Server.step captured) (.start ⟨100000, by decide⟩)
      [.arrive capturedRequest ⟨100000, by decide⟩,
        .advance 0 ⟨100000, by decide⟩ ⟨100001, by decide⟩ capturedFresh,
        .arrive capturedRequest ⟨200000, by decide⟩,
        .advance 1 ⟨200000, by decide⟩ ⟨200001, by decide⟩ capturedFresh]
    (s.trace.accepted.map Call.request = [capturedRequest] ∧
      s.trace.replies =
        [(capturedRequest, .error (unauthorized "request nonce was already used"))]) ∧
      (s.trace.accepted.map Call.signed).Nodup ∧
      ∀ call ∈ s.trace.accepted, Within call.checkedAt call.checked.timestamp :=
  ⟨by decide +kernel, no_replay captured _ _ (by decide +kernel)⟩

/-- **The captured request is accepted again** a millisecond after its nonce has expired, when its
timestamp is in the window for another 999; and a request dated 2^63 seconds back is accepted. -/
theorem captured_accepted_again :
    ¬ ((Run.run (Server.step captured) (.start ⟨0, by decide⟩)
      [.arrive capturedRequest ⟨0, by decide⟩,
        .advance 0 ⟨0, by decide⟩ ⟨0, by decide⟩ capturedFresh,
        .arrive capturedRequest ⟨600001, by decide⟩,
        .advance 1 ⟨600001, by decide⟩ ⟨600001, by decide⟩ capturedFresh]).trace.accepted.map
          Call.signed).Nodup ∧
      ¬ ∀ call ∈ (Run.run (Server.step captured) (.start ⟨0, by decide⟩)
        [.arrive ancientRequest ⟨0, by decide⟩,
          .advance 0 ⟨0, by decide⟩ ⟨0, by decide⟩ capturedFresh]).trace.accepted,
        Within call.checkedAt call.checked.timestamp :=
  ⟨by decide +kernel, by decide +kernel⟩

end Tracker

end VeritasSync
