import VeritasSync.Tracker.Server

/-!
# The relay of signals

`drain_signals` reads up to 256 signals of an inbox and then deletes the signals of that inbox up to
the id of the last one it read.  Ids are handed out in one sequence to the signals of all rooms, so
the table is in id order, the deleted rows are the ones that were read, and an inbox is a queue.

That the relay is a queue is a statement about what devices send and what they are told.  The tables
are only the way there.  So the module has two halves: the first is about the rows of an inbox and
the batches taken out of it, the second ties sends and batches to the requests and their answers.
-/

set_option autoImplicit false

namespace VeritasSync

namespace Tracker

/-! ## Draining

The order of the ids is all that is needed.  With it the rows that are selected are the first of the
inbox, and the rows that are deleted, being those up to the last selected id, are the same. -/

/-- The ids are in order, and none is used up. -/
structure Tables.Numbered (db : Tables) : Prop where
  sorted : db.signals.Pairwise fun a b => a.signalId < b.signalId
  le_seq : ∀ signal ∈ db.signals, signal.signalId ≤ db.signalSeq

namespace Tables

variable {db : Tables} {roomId : Bytes} {recipient : DeviceId}

theorem Numbered.inbox_sorted (h : db.Numbered) :
    (db.inbox roomId recipient).Pairwise fun a b => a.signalId < b.signalId :=
  h.sorted.filter _

/-- The rows that are selected are the first ones of the inbox. -/
theorem Numbered.drainRows_eq (h : db.Numbered) :
    db.drainRows roomId recipient = (db.inbox roomId recipient).take maxDrainSignals := by
  rw [drainRows, List.Pairwise.insertionSort_eq]
  exact h.inbox_sorted.imp fun hlt => hlt.le

/-- In a list in id order, the rows up to the last of the first `k` are the first `k`. -/
theorem filter_le_getLast {l : List Signal} (h : l.Pairwise fun a b => a.signalId < b.signalId)
    {k : Nat} {last : Signal} (hlast : (l.take k).getLast? = some last) :
    (l.filter fun signal => ¬ signal.signalId ≤ last.signalId) = l.drop k := by
  have hsplit : l.take k ++ l.drop k = l := List.take_append_drop k l
  have hpair := h
  rw [← hsplit, List.pairwise_append] at hpair
  obtain ⟨htake, -, hcross⟩ := hpair
  have hmem : last ∈ l.take k := List.mem_of_getLast? hlast
  have hle : ∀ a ∈ l.take k, a.signalId ≤ last.signalId := by
    intro a ha
    obtain ⟨front, hfront⟩ := List.getLast?_eq_some_iff.mp hlast
    rw [hfront] at ha htake
    rcases List.mem_append.mp ha with ha | ha
    · exact ((List.pairwise_append.mp htake).2.2 a ha last List.mem_cons_self).le
    · rw [List.mem_singleton.mp ha]
  conv_lhs => rw [← hsplit]
  rw [List.filter_append, List.filter_eq_nil_iff.mpr fun a ha => by simpa using hle a ha,
    List.nil_append]
  exact List.filter_eq_self.mpr fun a ha => by simpa using hcross last hmem a ha

/-- **A drain takes the rows that it returns out of the inbox.**  The deletion goes by id and the
selection by order, and this is where they meet. -/
theorem Numbered.inbox_drainSignals (h : db.Numbered) (auth : DeviceAuth) :
    (db.drainSignals auth roomId).2.inbox roomId auth.deviceId =
      (db.inbox roomId auth.deviceId).drop maxDrainSignals := by
  rw [drainSignals, h.drainRows_eq]
  cases hlast : ((db.inbox roomId auth.deviceId).take maxDrainSignals).getLast? with
  | none =>
    have hnil := List.getLast?_eq_none_iff.mp hlast
    have hempty : db.inbox roomId auth.deviceId = [] := by
      rw [List.take_eq_nil_iff] at hnil
      exact hnil.resolve_left (by decide)
    simp only [deleteUpTo]
    rw [hempty, List.drop_nil]
  | some last =>
    rw [← filter_le_getLast h.inbox_sorted hlast, inbox, inbox, deleteUpTo, List.filter_filter,
      List.filter_filter]
    refine List.filter_congr fun signal _ => ?_
    simp only [Bool.decide_and, not_and, not_le]
    by_cases hroom : signal.roomId = roomId
    · by_cases hrecipient : signal.recipient = auth.deviceId
      · simp [hroom, hrecipient]
      · simp [hroom, hrecipient]
    · simp [hroom]

/-- **Other inboxes stay as they are.**  The deletion has the room and the recipient in its
condition. -/
theorem inbox_drainSignals_of_ne (db : Tables) (auth : DeviceAuth) {roomId room' : Bytes}
    {recipient : DeviceId} (hne : ¬ (room' = roomId ∧ recipient = auth.deviceId)) :
    (db.drainSignals auth roomId).2.inbox room' recipient = db.inbox room' recipient := by
  rw [drainSignals]
  cases (db.drainRows roomId auth.deviceId).getLast? with
  | none => rfl
  | some last =>
    rw [deleteUpTo, inbox, inbox, List.filter_filter]
    refine List.filter_congr fun signal _ => ?_
    by_cases hsame : signal.roomId = room' ∧ signal.recipient = recipient
    · obtain ⟨rfl, rfl⟩ := hsame
      have hkept : ¬ (signal.roomId = roomId ∧ signal.recipient = auth.deviceId ∧
          signal.signalId ≤ last.signalId) := fun h => hne ⟨h.1, h.2.1⟩
      simp [hkept]
    · simp [hsame]

theorem Numbered.drainSignals (h : db.Numbered) (auth : DeviceAuth) :
    (db.drainSignals auth roomId).2.Numbered := by
  rw [Tables.drainSignals]
  cases (db.drainRows roomId auth.deviceId).getLast? with
  | none => exact h
  | some last =>
    exact ⟨h.sorted.filter _, fun signal hsignal =>
      h.le_seq signal (List.mem_of_mem_filter hsignal)⟩

/-- One more signal gets the next id. -/
theorem Numbered.append (h : db.Numbered) {signal : Signal}
    (hid : signal.signalId = db.signalSeq + 1) :
    { db with signals := db.signals ++ [signal], signalSeq := db.signalSeq + 1 }.Numbered := by
  refine ⟨?_, fun a ha => ?_⟩
  · refine List.pairwise_append.mpr ⟨h.sorted, List.pairwise_singleton _ _, ?_⟩
    intro a ha b hb
    rw [List.mem_singleton.mp hb, hid]
    exact Nat.lt_succ_of_le (h.le_seq a ha)
  · rcases List.mem_append.mp ha with ha | ha
    · exact Nat.le_succ_of_le (h.le_seq a ha)
    · rw [List.mem_singleton.mp ha, hid]

end Tables

/-! ## Runs

Each inbox is a list that grows at one end and shrinks at the other; what has been taken out,
followed by what is left, is what has been put in. -/

namespace Server

/-- The messages that have been accepted for an inbox, in order. -/
def sentTo (s : Server) (roomId : Bytes) (recipient : DeviceId) : List Message :=
  s.trace.sent.filter fun message => message.roomId = roomId ∧ message.recipient = recipient

/-- The batches drained from an inbox, one after the other. -/
def drainedFrom (s : Server) (roomId : Bytes) (recipient : DeviceId) : List Signal :=
  (s.trace.drained.filter fun batch =>
    batch.roomId = roomId ∧ batch.recipient = recipient).flatMap Batch.signals

/-- **The invariant**: what was drained, and then what is stored, is what was sent. -/
structure Relayed (s : Server) : Prop where
  numbered : s.db.Numbered
  fifo : ∀ roomId recipient,
    (s.drainedFrom roomId recipient ++ s.db.inbox roomId recipient).map Signal.message =
      s.sentTo roomId recipient
  bounded : ∀ batch ∈ s.trace.drained, batch.signals.length ≤ maxDrainSignals

/-- A step that touches neither the signals nor the two lists. -/
theorem Relayed.of_same {s s' : Server} (h : s.Relayed)
    (hsignals : s'.db.signals = s.db.signals ∧ s'.db.signalSeq = s.db.signalSeq)
    (hsent : s'.trace.sent = s.trace.sent) (hdrained : s'.trace.drained = s.trace.drained) :
    s'.Relayed where
  numbered := by
    refine ⟨?_, ?_⟩
    · rw [hsignals.1]
      exact h.numbered.sorted
    · rw [hsignals.1, hsignals.2]
      exact h.numbered.le_seq
  fifo roomId recipient := by
    rw [drainedFrom, hdrained, Tables.inbox, hsignals.1, sentTo, hsent]
    exact h.fifo roomId recipient
  bounded := by
    rw [hdrained]
    exact h.bounded

/-- A send is accepted. -/
theorem Relayed.send {s s' : Server} (h : s.Relayed) {message : Message} {signal : Signal}
    (hmessage : signal.message = message) (hid : signal.signalId = s.db.signalSeq + 1)
    (hdb : s'.db = { s.db with
      signals := s.db.signals ++ [signal], signalSeq := s.db.signalSeq + 1 })
    (hsent : s'.trace.sent = s.trace.sent ++ [message])
    (hdrained : s'.trace.drained = s.trace.drained) : s'.Relayed where
  numbered := by
    rw [hdb]
    exact h.numbered.append hid
  fifo roomId recipient := by
    have hinbox : s'.db.inbox roomId recipient = s.db.inbox roomId recipient ++
        [signal].filter fun signal => signal.roomId = roomId ∧ signal.recipient = recipient := by
      rw [hdb, Tables.inbox, List.filter_append]
      rfl
    have hsentTo : s'.sentTo roomId recipient = s.sentTo roomId recipient ++
        [message].filter fun message => message.roomId = roomId ∧
          message.recipient = recipient := by
      rw [sentTo, hsent, List.filter_append]
      rfl
    have hnew : ([signal].filter fun signal : Signal => signal.roomId = roomId ∧
          signal.recipient = recipient).map Signal.message =
        [message].filter fun message => message.roomId = roomId ∧
          message.recipient = recipient := by
      rw [← hmessage]
      by_cases hto : signal.roomId = roomId ∧ signal.recipient = recipient
      · simp [hto, Signal.message]
      · simp [hto, Signal.message]
    rw [drainedFrom, hdrained, hinbox, hsentTo, ← List.append_assoc, List.map_append, hnew]
    exact congrArg (· ++ _) (h.fifo roomId recipient)
  bounded := by
    rw [hdrained]
    exact h.bounded

/-- An inbox is drained. -/
theorem Relayed.drain {s s' : Server} (h : s.Relayed) {auth : DeviceAuth} {room : Bytes}
    (hdb : s'.db = (s.db.drainSignals auth room).2) (hsent : s'.trace.sent = s.trace.sent)
    (hdrained : s'.trace.drained = s.trace.drained ++
      [⟨room, auth.deviceId, s.db.drainRows room auth.deviceId⟩]) : s'.Relayed where
  numbered := hdb ▸ h.numbered.drainSignals auth
  fifo roomId recipient := by
    have hfrom : s'.drainedFrom roomId recipient = s.drainedFrom roomId recipient ++
        if room = roomId ∧ auth.deviceId = recipient
        then s.db.drainRows room auth.deviceId else [] := by
      rw [drainedFrom, hdrained, List.filter_append, List.flatMap_append, List.filter_singleton]
      by_cases hsame : room = roomId ∧ auth.deviceId = recipient
      · rw [decide_eq_true hsame, if_pos hsame, cond_true, List.flatMap_singleton]
        rfl
      · rw [decide_eq_false hsame, if_neg hsame, cond_false, List.flatMap_nil]
        rfl
    have hsentTo : s'.sentTo roomId recipient = s.sentTo roomId recipient := by
      rw [sentTo, hsent]
      rfl
    rw [hfrom, hdb, hsentTo, ← h.fifo roomId recipient, List.append_assoc]
    congr 2
    by_cases hsame : room = roomId ∧ auth.deviceId = recipient
    · obtain ⟨rfl, rfl⟩ := hsame
      rw [if_pos ⟨rfl, rfl⟩, h.numbered.drainRows_eq, h.numbered.inbox_drainSignals auth,
        List.take_append_drop]
    · rw [if_neg hsame, List.nil_append, Tables.inbox_drainSignals_of_ne]
      exact fun heq => hsame ⟨heq.1.symm, heq.2.symm⟩
  bounded batch hbatch := by
    rw [hdrained] at hbatch
    rcases List.mem_append.mp hbatch with hbatch | hbatch
    · exact h.bounded batch hbatch
    · rw [List.mem_singleton.mp hbatch]
      exact List.length_take_le _ _

/-- **One step** of the tracker keeps the invariant.  Only sends and drains touch the signals, and
each is followed by its entry in the trace. -/
theorem relayed_step (P : Primitives) (s : Server) (action : Action) (h : s.Relayed) :
    (step P s action).Relayed := by
  rcases step_cases P s action with hquiet | ⟨call, -, values, now, fresh, answer, -, hworked⟩
  · obtain ⟨nonces, hdb⟩ := hquiet.db
    exact h.of_same (by rw [hdb]; exact ⟨rfl, rfl⟩) hquiet.sent hquiet.drained
  have hsent := hworked.sent
  have hdrained := hworked.drained
  have hserved := hworked.served
  generalize call.request.endpoint = endpoint at hserved hsent hdrained
  generalize hdb' : (step P s action).db = db' at hserved
  cases hserved with
  | createRoom hroom =>
    obtain ⟨_, _, _, -, -, -, -, -, -, _, -, -, rfl, -⟩ := Tables.createRoom_eq_ok hroom
    exact h.of_same (by rw [hdb']; exact ⟨rfl, rfl⟩) hsent hdrained
  | createInvitation hinvitation =>
    obtain ⟨_, _, _, -, -, -, -, rfl⟩ := Tables.createInvitation_eq_ok hinvitation
    exact h.of_same (by rw [hdb']; exact ⟨rfl, rfl⟩) hsent hdrained
  | redeemInvitation hredeem =>
    obtain ⟨_, _, -, -, -, -, rfl, -⟩ := Tables.redeemInvitation_eq_ok hredeem
    exact h.of_same (by rw [hdb']; exact ⟨rfl, rfl⟩) hsent hdrained
  | joinRoom hjoin =>
    obtain ⟨_, _, -, -, -, rfl, -⟩ := Tables.joinRoom_eq_ok hjoin
    exact h.of_same (by rw [hdb']; exact ⟨rfl, rfl⟩) hsent hdrained
  | sendSignal hsend =>
    obtain ⟨message, hof, signal, hmessage, hid, rfl⟩ := Tables.sendSignal_eq_ok hsend
    simp only [record, hof, Option.toList_some] at hsent hdrained
    exact h.send hmessage hid hdb' hsent hdrained
  | drainSignals => exact h.drain hdb' hsent hdrained

end Server

/-! ## What the clients see

`Trace.sent` and `Trace.drained` are bookkeeping of this development.  What the devices see are the
requests and their answers, so the two lists are tied to these: the accepted sends are the messages
in the bodies of the requests that were answered with success, one for one and in order, and the
batches are what the answers to the drains are made of. -/

/-- The requests of a route that were answered with success, and their answers, oldest first. -/
def Server.answered (s : Server) (endpoint : Endpoint) : List (Request × Bytes) :=
  s.trace.replies.filterMap fun reply =>
    match reply.2 with
    | .ok answer => if reply.1.endpoint = endpoint then some (reply.1, answer) else none
    | .error _ => none

/-- The request is a send of this message: the device that signed it is the sender, and the fields
of its body are the others. -/
structure Sends (reply : Request × Bytes) (message : Message) : Prop where
  sender : reply.1.headers.deviceId = some message.sender
  body : ∃ kind index, fields reply.1.body Endpoint.sendSignal.fieldCount =
      .ok [message.roomId, kind, message.recipient, message.payload, message.candidateMid, index] ∧
    parseKind kind = some message.kind ∧ parseInt 32 index = some message.candidateMlineIndex

/-- The request is a drain of this inbox, and **its answer is made of exactly these signals**. -/
structure Drains (reply : Request × Bytes) (batch : Batch) : Prop where
  recipient : reply.1.headers.deviceId = some batch.recipient
  body : fields reply.1.body Endpoint.drainSignals.fieldCount = .ok [batch.roomId]
  answer : reply.2 = drainResponse batch.recipient batch.signals

/-- What a request in flight carries along is what is in its headers and its body. -/
structure Call.Split (call : Call) : Prop where
  device : call.request.headers.deviceId = some call.checked.auth.deviceId
  values : ∀ values, call.stage = .session values ∨ call.stage = .work values →
    fields call.request.body call.request.endpoint.fieldCount = .ok values

theorem of_messageOf {auth : DeviceAuth} {values : List Bytes} {message : Message}
    (h : messageOf auth values = some message) : auth.deviceId = message.sender ∧
      ∃ kind index, values = [message.roomId, kind, message.recipient, message.payload,
          message.candidateMid, index] ∧
        parseKind kind = some message.kind ∧ parseInt 32 index =
          some message.candidateMlineIndex := by
  rw [messageOf.eq_def] at h
  split at h
  · split at h
    · rename_i kind index hkind hindex
      cases h
      exact ⟨rfl, _, _, rfl, hkind, hindex⟩
    · cases h
  · cases h

namespace Server

/-- The section of `authenticate`, and `fields` after it. -/
theorem split_stepNonce {s : Server} {call : Call} {purgedAt insertedAt : Millis}
    (h : ∀ other ∈ s.calls, other.Split) (hcall : call.Split) :
    ∀ other ∈ (s.stepNonce call purgedAt insertedAt).calls, other.Split := by
  intro other hother
  rw [stepNonce] at hother
  split at hother
  · exact h other hother
  simp only at hother
  split at hother
  · exact h other hother
  rename_i values hfields
  rcases List.mem_append.mp hother with hold | hnew
  · exact h other hold
  rw [List.mem_singleton.mp hnew]
  refine ⟨hcall.device, fun values' hstage => ?_⟩
  have hvalues : values' = values := by
    simp only at hstage
    split at hstage
    · rcases hstage with hstage | hstage
      · exact (Stage.session.inj hstage).symm
      · cases hstage
    · rcases hstage with hstage | hstage
      · cases hstage
      · exact (Stage.work.inj hstage).symm
  rw [hvalues]
  exact hfields

theorem split_stepSession {s : Server} {call : Call} {values : List Bytes} {now : Millis}
    (h : ∀ other ∈ s.calls, other.Split) (hcall : call.Split)
    (hstage : call.stage = .session values) :
    ∀ other ∈ (s.stepSession call values now).calls, other.Split := by
  intro other hother
  rw [stepSession] at hother
  split at hother
  · exact h other hother
  split at hother
  · exact h other hother
  rcases List.mem_append.mp hother with hold | hnew
  · exact h other hold
  rw [List.mem_singleton.mp hnew]
  refine ⟨hcall.device, fun values' hstage' => ?_⟩
  rcases hstage' with hstage' | hstage'
  · cases hstage'
  · obtain rfl := Stage.work.inj hstage'
    exact hcall.values values (.inl hstage)

/-- **One step** keeps what the requests in flight carry along. -/
theorem split_step (P : Primitives) (s : Server) (action : Action)
    (h : ∀ call ∈ s.calls, call.Split) : ∀ call ∈ (step P s action).calls, call.Split := by
  cases action with
  | arrive request now =>
    rw [step]
    simp only
    split
    · exact h
    · rename_i checked hchecked
      intro call hcall
      rcases List.mem_append.mp hcall with hold | hnew
      · exact h call hold
      · rw [List.mem_singleton.mp hnew]
        refine ⟨(checkRequest_eq_ok hchecked).1, fun values hstage => ?_⟩
        rcases hstage with hstage | hstage <;> cases hstage
  | advance index first second fresh =>
    rw [step]
    split
    · exact h
    rename_i call hcall
    have hsplit : call.Split := h call (List.mem_of_getElem? hcall)
    have hrest : ∀ other ∈ s.calls.eraseIdx index, other.Split :=
      fun other hother => h other (List.mem_of_mem_eraseIdx hother)
    simp only
    split
    · exact split_stepNonce hrest hsplit
    · rename_i values hstage
      exact split_stepSession hrest hsplit hstage
    · rw [stepWork]
      split
      · exact hrest
      · exact hrest

/-- **The invariant**: the accepted sends and the batches are those of the requests that were
answered. -/
structure Answered (s : Server) : Prop where
  calls : ∀ call ∈ s.calls, call.Split
  sends : List.Forall₂ Sends (s.answered .sendSignal) s.trace.sent
  drains : List.Forall₂ Drains (s.answered .drainSignals) s.trace.drained

/-- An error answers no request with success. -/
theorem Quiet.answered {s s' : Server} (h : Quiet s s') (endpoint : Endpoint) :
    s'.answered endpoint = s.answered endpoint := by
  rcases h.replies with hsame | ⟨request, e, hreplies⟩
  · rw [Server.answered, hsame]
    rfl
  · rw [Server.answered, hreplies, List.filterMap_append]
    exact List.append_nil _

theorem Worked.answered {s s' : Server} {call : Call} {values : List Bytes} {now : Millis}
    {fresh : Fresh} {answer : Bytes} (h : Worked s s' call values now fresh answer)
    (endpoint : Endpoint) : s'.answered endpoint = s.answered endpoint ++
      if call.request.endpoint = endpoint then [(call.request, answer)] else [] := by
  rw [Server.answered, h.replies, List.filterMap_append]
  refine congrArg (_ ++ ·) ?_
  by_cases hendpoint : call.request.endpoint = endpoint
  · rw [if_pos hendpoint]
    simp [hendpoint]
  · rw [if_neg hendpoint]
    simp [hendpoint]

/-- A handler of another route records neither a send nor a batch. -/
theorem record_other (trace : Trace) {endpoint : Endpoint} (auth : DeviceAuth)
    (values : List Bytes) (before : Tables) (hsend : endpoint ≠ .sendSignal)
    (hdrain : endpoint ≠ .drainSignals) :
    (record trace endpoint auth values before).sent = trace.sent ∧
      (record trace endpoint auth values before).drained = trace.drained := by
  rw [record.eq_def]
  split
  · exact ⟨rfl, rfl⟩
  · exact absurd rfl hsend
  · exact absurd rfl hdrain
  · exact ⟨rfl, rfl⟩

/-- **One step** of the tracker keeps the lists tied to the answers.  A request is answered in the
step in which its handler works, so the answer and the entry in the trace are made at once. -/
theorem answered_step (P : Primitives) (s : Server) (action : Action) (h : s.Answered) :
    (step P s action).Answered := by
  refine ⟨split_step P s action h.calls, ?_, ?_⟩
  all_goals
    rcases step_cases P s action with hquiet |
      ⟨call, hcall, values, now, fresh, answer, hstage, hworked⟩
  · rw [hquiet.answered, hquiet.sent]
    exact h.sends
  -- a signal that is sent is recorded with its call, and a drain with its answer
  · have hsplit := h.calls call hcall
    have hfields := hsplit.values values (.inr hstage)
    have hserved := hworked.served
    rw [hworked.answered, hworked.sent]
    generalize (step P s action).db = db' at hserved
    by_cases hsend : call.request.endpoint = .sendSignal
    · rw [hsend] at hfields hserved ⊢
      cases hserved with
      | sendSignal hsignal =>
        obtain ⟨message, hof, -⟩ := Tables.sendSignal_eq_ok hsignal
        obtain ⟨hsender, kind, index, hvalues, hkind, hindex⟩ := of_messageOf hof
        simp only [record, hof, Option.toList_some, if_true]
        refine List.rel_append h.sends (.cons ⟨?_, kind, index, ?_, hkind, hindex⟩ .nil)
        · rw [hsplit.device, hsender]
        · rw [hfields, hvalues]
    · rw [if_neg hsend, List.append_nil]
      by_cases hdrain : call.request.endpoint = .drainSignals
      · rw [hdrain, record.eq_def]
        rw [hdrain] at hserved
        cases hserved
        exact h.sends
      · rw [(record_other s.trace call.checked.auth values s.db hsend hdrain).1]
        exact h.sends
  · rw [hquiet.answered, hquiet.drained]
    exact h.drains
  · have hsplit := h.calls call hcall
    have hfields := hsplit.values values (.inr hstage)
    have hserved := hworked.served
    rw [hworked.answered, hworked.drained]
    generalize (step P s action).db = db' at hserved
    by_cases hdrain : call.request.endpoint = .drainSignals
    · rw [hdrain] at hfields hserved ⊢
      cases hserved with
      | drainSignals =>
        simp only [record, if_true]
        exact List.rel_append h.drains (.cons ⟨hsplit.device, hfields, rfl⟩ .nil)
    · rw [if_neg hdrain, List.append_nil]
      by_cases hsend : call.request.endpoint = .sendSignal
      · rw [hsend, record.eq_def]
        exact h.drains
      · rw [(record_other s.trace call.checked.auth values s.db hsend hdrain).2]
        exact h.drains

end Server

/-- **The relay is a queue.**  In every run, for every inbox, the batches that have been drained and
then the signals still stored are the messages accepted for it, in the order of acceptance; no batch
has more than 256 signals, and a drain leaves the other inboxes alone.  The messages accepted are
those of the requests to send that were answered with success, and each batch is what the answer to
a request to drain is made of. -/
theorem relay_fifo (P : Primitives) (clock : Millis) (actions : List Server.Action) :
    let s := Run.run (Server.step P) (.start clock) actions
    (∀ roomId recipient,
      (s.drainedFrom roomId recipient ++ s.db.inbox roomId recipient).map Signal.message =
        s.sentTo roomId recipient) ∧
      List.Forall₂ Sends (s.answered .sendSignal) s.trace.sent ∧
      List.Forall₂ Drains (s.answered .drainSignals) s.trace.drained ∧
      (∀ batch ∈ s.trace.drained, batch.signals.length ≤ 256) ∧
      ∀ (auth : DeviceAuth) roomId room' recipient, ¬ (room' = roomId ∧ recipient = auth.deviceId) →
        (s.db.drainSignals auth roomId).2.inbox room' recipient = s.db.inbox room' recipient := by
  have hrelayed : (Server.start clock).Relayed :=
    ⟨⟨List.Pairwise.nil, nofun⟩, fun _ _ => rfl, nofun⟩
  have hanswered : (Server.start clock).Answered :=
    ⟨fun _ hcall => absurd hcall List.not_mem_nil, .nil, .nil⟩
  have h := Run.run_invariant_all (Server.relayed_step P) actions hrelayed
  have h' := Run.run_invariant_all (Server.answered_step P) actions hanswered
  exact ⟨h.fifo, h'.sends, h'.drains, h.bounded, fun auth roomId room' recipient hne =>
    Tables.inbox_drainSignals_of_ne _ auth hne⟩

/-! ### Two inboxes

Two devices share a room: each sends to the other, and both inboxes are drained.  As in the run of
`captured` above, the requests are really signed, and `libraries` answers for Ed25519, BLAKE3 and
Base64 on what the tracker asks about them; it refuses everything else, as the libraries refuse what
these devices have not signed. -/

/-- A digit of Base64, with the alphabet for URLs. -/
def base64Digit (n : Nat) : UInt8 :=
  if n < 26 then UInt8.ofNat (65 + n)
  else if n < 52 then UInt8.ofNat (71 + n)
  else if n < 62 then UInt8.ofNat (n - 4)
  else if n = 62 then '-'.toUInt8
  else '_'.toUInt8

/-- The Base64 text of some bytes, without padding. -/
def base64 : Bytes → Bytes
  | [] => []
  | [a] => [base64Digit (a.toNat / 4), base64Digit (a.toNat % 4 * 16)]
  | [a, b] =>
    [base64Digit (a.toNat / 4), base64Digit (a.toNat % 4 * 16 + b.toNat / 16),
      base64Digit (b.toNat % 16 * 4)]
  | a :: b :: c :: rest =>
    base64Digit (a.toNat / 4) :: base64Digit (a.toNat % 4 * 16 + b.toNat / 16) ::
      base64Digit (b.toNat % 16 * 4 + c.toNat / 64) :: base64Digit (c.toNat % 64) :: base64 rest

/-- A device: its Ed25519 public key and the BLAKE3 hash of it. -/
structure Signer where
  key : Bytes
  fingerprint : Bytes

/-- A request that a device has signed, 300 seconds after the epoch. -/
structure SignedRequest where
  signer : Signer
  endpoint : Endpoint
  nonce : Bytes
  session : Option Bytes
  body : Bytes
  bodyHash : Bytes
  signature : Bytes

/-- The text under the signature. -/
def SignedRequest.message (r : SignedRequest) : Bytes :=
  ascii "POST\n" ++ r.endpoint.path ++ ascii "\n300\n" ++ r.nonce ++ [newline] ++ hex r.bodyHash

/-- The request as it arrives. -/
def SignedRequest.request (r : SignedRequest) : Request where
  endpoint := r.endpoint
  headers := ⟨some (hex (r.signer.fingerprint.take 16)), some (base64 r.signer.key),
    some (ascii "300"), some r.nonce, some (base64 r.signature), r.session⟩
  body := r.body

/-- The libraries, on these requests. -/
def libraries (requests : List SignedRequest) : Primitives where
  decodeBase64 text :=
    requests.findSome? fun r =>
      if text = base64 r.signer.key then some r.signer.key
      else if text = base64 r.signature then some r.signature
      else none
  blake3 bytes :=
    (requests.findSome? fun r =>
      if bytes = r.signer.key then some r.signer.fingerprint
      else if bytes = r.body then some r.bodyHash
      else none).getD []
  isVerifyingKey key := requests.any fun r => key = r.signer.key
  verify key message signature :=
    requests.any fun r => signature = r.signature ∧ key = r.signer.key ∧ message = r.message

/-- The first device. -/
def firstSigner : Signer where
  key :=
    [84, 3, 202, 203, 109, 251, 219, 91, 38, 60, 181, 240, 174, 211, 87, 238, 173, 238, 206, 194,
     28, 15, 186, 76, 120, 0, 245, 193, 124, 232, 127, 112]
  fingerprint :=
    [231, 220, 190, 213, 252, 81, 79, 41, 104, 113, 57, 245, 113, 107, 170, 182, 124, 113, 0, 41,
     114, 56, 2, 66, 230, 110, 87, 248, 232, 53, 194, 57]

/-- The second device. -/
def secondSigner : Signer where
  key :=
    [134, 212, 17, 117, 79, 224, 224, 243, 71, 48, 24, 67, 125, 79, 253, 241, 18, 19, 4, 240, 110,
     216, 22, 181, 12, 214, 217, 127, 74, 65, 4, 7]
  fingerprint :=
    [61, 157, 157, 139, 111, 252, 137, 10, 190, 152, 171, 185, 108, 170, 147, 65, 128, 103, 193,
     98, 108, 235, 155, 83, 36, 101, 103, 237, 38, 4, 173, 97]

/-- The first device creates a room for two peers. -/
def createRequest : SignedRequest where
  signer := firstSigner
  endpoint := .createRoom
  nonce := ascii "1"
  session := none
  body := ascii "task\tbidirectional\tpeer\tpeer"
  bodyHash :=
    [58, 74, 164, 68, 69, 241, 29, 43, 179, 49, 53, 50, 1, 79, 145, 57, 236, 186, 181, 90, 148,
     127, 91, 98, 137, 193, 164, 23, 234, 170, 128, 57]
  signature :=
    [220, 162, 153, 206, 233, 122, 231, 36, 96, 35, 100, 32, 11, 225, 163, 49, 60, 67, 55, 234,
     248, 125, 74, 19, 31, 249, 107, 167, 41, 161, 18, 240, 10, 140, 52, 226, 210, 152, 0, 253,
     136, 206, 238, 220, 204, 34, 50, 95, 202, 211, 65, 114, 250, 13, 48, 227, 203, 240, 87, 183,
     110, 186, 151, 1]

/-- The second device redeems the invitation. -/
def redeemRequest : SignedRequest where
  signer := secondSigner
  endpoint := .redeemInvitation
  nonce := ascii "2"
  session := none
  body := ascii "code\ttask\tpeer"
  bodyHash :=
    [43, 232, 38, 198, 162, 127, 208, 30, 170, 120, 135, 148, 186, 121, 114, 94, 228, 113, 106,
     201, 60, 167, 166, 239, 183, 217, 217, 214, 76, 133, 137, 250]
  signature :=
    [110, 10, 102, 207, 139, 251, 107, 89, 115, 214, 150, 142, 251, 66, 164, 123, 52, 238, 27,
     165, 232, 50, 254, 35, 212, 144, 148, 230, 109, 87, 168, 99, 13, 218, 87, 120, 170, 139, 84,
     24, 162, 53, 159, 162, 136, 81, 233, 186, 45, 208, 21, 88, 93, 193, 232, 129, 22, 92, 2, 31,
     163, 193, 217, 5]

/-- The first device sends an offer. -/
def offerRequest : SignedRequest where
  signer := firstSigner
  endpoint := .sendSignal
  nonce := ascii "3"
  session := some (ascii "first")
  body := ascii "room\toffer\t3d9d9d8b6ffc890abe98abb96caa9341\tsdp\t\t-1"
  bodyHash :=
    [192, 202, 204, 44, 157, 163, 191, 150, 208, 117, 8, 247, 127, 196, 240, 20, 149, 228, 5, 8,
     147, 165, 230, 241, 190, 103, 80, 111, 59, 213, 185, 94]
  signature :=
    [65, 119, 82, 215, 61, 167, 201, 11, 107, 73, 175, 73, 75, 100, 7, 252, 242, 57, 180, 193,
     145, 148, 205, 107, 153, 118, 128, 36, 230, 93, 117, 10, 237, 114, 238, 88, 243, 105, 19,
     242, 236, 124, 109, 197, 82, 71, 64, 191, 28, 115, 32, 7, 115, 157, 212, 226, 117, 22, 48, 4,
     143, 65, 105, 1]

/-- The second device sends an answer. -/
def answerRequest : SignedRequest where
  signer := secondSigner
  endpoint := .sendSignal
  nonce := ascii "4"
  session := some (ascii "second")
  body := ascii "room\tanswer\te7dcbed5fc514f29687139f5716baab6\tsdp\t\t-1"
  bodyHash :=
    [28, 210, 170, 237, 206, 105, 94, 204, 235, 84, 226, 43, 12, 178, 210, 50, 234, 177, 108, 131,
     21, 73, 16, 130, 59, 162, 55, 62, 124, 173, 79, 149]
  signature :=
    [222, 247, 201, 183, 94, 1, 67, 166, 120, 51, 132, 35, 243, 24, 40, 160, 219, 100, 67, 17, 63,
     223, 97, 39, 43, 45, 25, 7, 68, 134, 24, 173, 226, 26, 155, 14, 209, 35, 207, 30, 179, 229,
     152, 170, 62, 225, 41, 119, 30, 100, 120, 54, 67, 148, 30, 56, 17, 136, 82, 242, 139, 251,
     229, 6]

/-- The second device drains its inbox. -/
def secondDrainRequest : SignedRequest where
  signer := secondSigner
  endpoint := .drainSignals
  nonce := ascii "5"
  session := some (ascii "second")
  body := ascii "room"
  bodyHash :=
    [161, 156, 112, 215, 218, 79, 124, 150, 42, 73, 178, 198, 6, 28, 37, 173, 108, 85, 166, 21,
     81, 96, 221, 203, 51, 181, 11, 3, 114, 34, 112, 157]
  signature :=
    [26, 238, 12, 255, 192, 82, 236, 68, 235, 19, 222, 24, 50, 202, 176, 120, 7, 191, 44, 223,
     156, 129, 116, 145, 75, 249, 30, 194, 84, 43, 182, 228, 117, 189, 233, 19, 88, 71, 68, 141,
     93, 190, 148, 110, 185, 37, 124, 170, 213, 73, 91, 0, 160, 152, 107, 163, 54, 186, 154, 18,
     20, 193, 66, 13]

/-- The first device sends a candidate. -/
def candidateRequest : SignedRequest where
  signer := firstSigner
  endpoint := .sendSignal
  nonce := ascii "6"
  session := some (ascii "first")
  body := ascii "room\tice\t3d9d9d8b6ffc890abe98abb96caa9341\thost\taudio\t0"
  bodyHash :=
    [3, 15, 43, 196, 36, 40, 229, 149, 184, 237, 118, 128, 245, 250, 92, 251, 243, 194, 1, 251,
     163, 203, 234, 222, 246, 101, 143, 153, 217, 171, 132, 128]
  signature :=
    [161, 44, 140, 37, 21, 215, 156, 38, 46, 209, 73, 13, 130, 213, 20, 98, 249, 63, 39, 245, 214,
     160, 236, 197, 44, 186, 231, 2, 110, 220, 174, 42, 52, 73, 68, 132, 36, 136, 117, 71, 130,
     181, 247, 136, 57, 112, 53, 89, 234, 12, 148, 224, 52, 251, 217, 234, 54, 118, 94, 20, 102,
     235, 6, 12]

/-- The first device drains its inbox. -/
def firstDrainRequest : SignedRequest where
  signer := firstSigner
  endpoint := .drainSignals
  nonce := ascii "7"
  session := some (ascii "first")
  body := ascii "room"
  bodyHash :=
    [161, 156, 112, 215, 218, 79, 124, 150, 42, 73, 178, 198, 6, 28, 37, 173, 108, 85, 166, 21,
     81, 96, 221, 203, 51, 181, 11, 3, 114, 34, 112, 157]
  signature :=
    [20, 102, 246, 238, 93, 189, 110, 163, 224, 160, 78, 11, 134, 72, 148, 216, 3, 180, 130, 52,
     7, 215, 206, 34, 17, 112, 23, 216, 136, 178, 77, 207, 156, 209, 71, 120, 103, 169, 241, 57,
     190, 196, 250, 247, 52, 44, 254, 178, 66, 116, 123, 169, 58, 132, 225, 52, 87, 136, 121, 184,
     241, 235, 23, 4]

theorem inboxTime_lt : 300000 < 2 ^ 63 := by decide
theorem inboxDigest_length : (List.replicate 32 (0 : UInt8)).length = 32 := List.length_replicate
theorem inboxRoom_ne : ascii "room" ≠ [] := by decide
theorem firstToken_ne : ascii "first" ≠ [] := by decide
theorem secondToken_ne : ascii "second" ≠ [] := by decide

/-- The clock of the run, 300 seconds after the epoch. -/
def inboxTime : Millis := ⟨300000, inboxTime_lt⟩

/-- What is drawn for the first device: the room, the code of the invitation and a session. -/
def firstFresh : Fresh :=
  ⟨ascii "room", ascii "code", List.replicate 32 0, ascii "first", inboxRoom_ne, firstToken_ne,
    inboxDigest_length⟩

/-- What is drawn for the second device: a session. -/
def secondFresh : Fresh :=
  ⟨ascii "room", ascii "code", List.replicate 32 0, ascii "second", inboxRoom_ne, secondToken_ne,
    inboxDigest_length⟩

/-- The next section of the oldest request in flight. -/
def nextSection (fresh : Fresh) : Server.Action := .advance 0 inboxTime inboxTime fresh

/-- The request arrives. -/
def arrival (r : SignedRequest) : Server.Action := .arrive r.request inboxTime

/-- The requests of the run. -/
def inboxRequests : List SignedRequest :=
  [createRequest, redeemRequest, offerRequest, answerRequest, secondDrainRequest, candidateRequest,
    firstDrainRequest]

/-- The room is made and joined; the offer and the answer are in flight together, section by
section; the second device drains, the first one sends a candidate and drains. -/
def inboxActions : List Server.Action :=
  [arrival createRequest, nextSection firstFresh, nextSection firstFresh,
    arrival redeemRequest, nextSection secondFresh, nextSection secondFresh,
    arrival offerRequest, arrival answerRequest, nextSection firstFresh, nextSection firstFresh,
    nextSection firstFresh, nextSection firstFresh, nextSection firstFresh, nextSection firstFresh,
    arrival secondDrainRequest, nextSection firstFresh, nextSection firstFresh,
    nextSection firstFresh,
    arrival candidateRequest, nextSection firstFresh, nextSection firstFresh,
    nextSection firstFresh,
    arrival firstDrainRequest, nextSection firstFresh, nextSection firstFresh,
    nextSection firstFresh]

/-- The offer has reached the second device and the answer the first one; the candidate waits for
the second device, and the other inbox is empty. -/
theorem relay_fifo_twoInboxes :
    let s := Run.run (Server.step (libraries inboxRequests)) (.start inboxTime) inboxActions
    let first := hex (firstSigner.fingerprint.take 16)
    let second := hex (secondSigner.fingerprint.take 16)
    (s.trace.sent.map (fun message => (message.kind, message.recipient)) =
        [(.offer, second), (.answer, first), (.iceCandidate, second)] ∧
      s.trace.drained.map (fun batch => (batch.recipient, batch.signals.map Signal.kind)) =
        [(second, [.offer]), (first, [.answer])] ∧
      (s.db.inbox (ascii "room") second).map Signal.kind = [.iceCandidate] ∧
      s.db.inbox (ascii "room") first = []) ∧
    (∀ roomId recipient,
      (s.drainedFrom roomId recipient ++ s.db.inbox roomId recipient).map Signal.message =
        s.sentTo roomId recipient) ∧
      List.Forall₂ Sends (s.answered .sendSignal) s.trace.sent ∧
      List.Forall₂ Drains (s.answered .drainSignals) s.trace.drained :=
  have h := relay_fifo (libraries inboxRequests) inboxTime inboxActions
  ⟨by decide +kernel, h.1, h.2.1, h.2.2.1⟩

end Tracker

end VeritasSync
